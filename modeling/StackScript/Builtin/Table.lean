import StackScript.Builtin.Root
import StackScript.Builtin.Strings
import StackScript.Builtin.Math
import StackScript.Builtin.Host
import StackScript.Builtin.Json

/-!
# The table of builtins

Running a builtin by its record, and the root table of a new program: the names of types, the
functions at the root, and a readonly struct for every package.

Main statements: `checkArity_of_accepts`.
-/
namespace StackScript

namespace Native

/-- The fault of a number of arguments that a builtin does not take. -/
def checkArity (f : Native) (count : Nat) : Except Fault Unit :=
  if f.accepts count then .ok () else .error (.about .argumentCount f.name)

theorem checkArity_of_accepts {f : Native} {count : Nat} (h : f.accepts count = true) :
    f.checkArity count = .ok () := by
  simp [checkArity, h]

/-- Run a builtin; the number of arguments has been checked. -/
def run (f : Native) (c : NativeCall) : WorldM Answer :=
  match f with
  | root f => f.run c
  | strings f => .value <$> f.run c
  | math f => .value <$> f.run c
  | time f => f.run c
  | profile f => .value <$> f.run c
  | json f => .value <$> f.run c
  | newError => do pure (.value (.error (.native (← c.text 0))))
  | strconv f => .value <$> f.run c
  | os f => .value <$> f.run c
  | util f => f.run c
  | method m _ => m.run c

/-- The package of a builtin and its name there, if it is in one. -/
def packageName? (f : Native) : Option (String × String) :=
  match f.name.toList.span (· != '.') with
  | (_, []) => none
  | (package, _ :: name) => some (String.ofList package, String.ofList name)

end Native

namespace Store

/-- Bind a readonly value at the root. -/
def bindBuiltin (s : Store) (root : TableRef) (name : String) (v : Value) : Store :=
  s.modifyTable root fun t => t.bind name { value := v, readonly := true }

/-- The members of a package with those that are no functions. -/
def packageMembers (package : String) : List (String × Value) :=
  let constants : List (String × Value) :=
    match package with
    | "math" =>
      [("Pi", .float64 (.ofBits 0x400921FB54442D18)), ("E", .float64 (.ofBits 0x4005BF0A8B145769))]
    | "sync" => [("WaitGroup", .type (.plain .waitGroup)), ("Mutex", .type (.plain .mutex))]
    | _ => []
  constants ++ Native.packageFunctions.filterMap fun f =>
    match f.packageName? with
    | some (p, name) => if p = package then some (name, .native f) else none
    | none => none

/-- The names of types at the root. -/
def typeNames : List String :=
  ["bool", "byte", "int", "int32", "int64", "float32", "float64", "string", "error", "any"]

/-- Add the struct of a package and bind it. -/
def bindPackage (s : Store) (root : TableRef) (package : String) : Store :=
  let object := { StructObject.ofPackage package with fields := packageMembers package }
  let (r, s) := s.newStruct object
  s.bindBuiltin root package (.struct r)

/-- The names at the root that stand for types, functions and packages. -/
def bindBuiltins (s : Store) (root : TableRef) : Store :=
  let s := typeNames.foldl (fun s name =>
    match Ty.ofName? name with
    | some t => s.bindBuiltin root name (.type t)
    | none => s) s
  let s := Native.rootFunctions.foldl (fun s f => s.bindBuiltin root f.name (.native f)) s
  Native.packages.foldl (fun s package => s.bindPackage root package) s

end Store

/-- The store and the world of a new program with the given settings. -/
def World.new (settings : Settings) : World × Store :=
  let (root, s) := ({} : Store).newRoot "root"
  ({ settings := settings, root := root }, s.bindBuiltins root)

end StackScript
