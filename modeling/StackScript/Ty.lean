import StackScript.Kind
import StackScript.Text.Layout

/-!
# Types

The types that programs write. A type may be known by its kind alone (`array` without an element
type), be built from parts, or carry a declared name.

Main statements: `beq_iff` (equality of types is decidable) and `compatible_interface` (the empty
interface is compatible with every type).
-/
namespace StackScript

/-- A type. -/
inductive Ty where
  /-- A kind without parts. -/
  | plain (kind : Kind)
  | array (element : Ty)
  | pointer (target : Ty)
  | channel (element : Ty)
  | map (key value : Ty)
  /-- Fields in the order of their declaration. -/
  | struct (fields : List (String × Ty))
  | named (name : String) (underlying : Ty)
deriving Repr

namespace Ty

instance : Inhabited Ty := ⟨plain .nil⟩

/-- The empty interface, which every value has. -/
abbrev interface : Ty := plain .interface

/-! ## Equality -/

mutual
/-- Whether two types are the same in kind, name and parts. -/
def beq : Ty → Ty → Bool
  | plain a, plain b => a == b
  | array a, array b => beq a b
  | pointer a, pointer b => beq a b
  | channel a, channel b => beq a b
  | map a b, map c d => beq a c && beq b d
  | struct fs, struct gs => beqFields fs gs
  | named n a, named m b => n == m && beq a b
  | _, _ => false

/-- Whether two lists of fields are the same. -/
def beqFields : List (String × Ty) → List (String × Ty) → Bool
  | [], [] => true
  | (n, a) :: fs, (m, b) :: gs => n == m && beq a b && beqFields fs gs
  | _, _ => false
end

mutual
theorem beq_iff : (a b : Ty) → (beq a b = true ↔ a = b)
  | plain a, b => by cases b <;> simp [beq]
  | array a, b => by cases b <;> simp [beq, beq_iff a]
  | pointer a, b => by cases b <;> simp [beq, beq_iff a]
  | channel a, b => by cases b <;> simp [beq, beq_iff a]
  | map k v, b => by cases b <;> simp [beq, beq_iff k, beq_iff v]
  | struct fs, b => by cases b <;> simp [beq, beqFields_iff fs]
  | named n t, b => by cases b <;> simp [beq, beq_iff t]

theorem beqFields_iff : (fs gs : List (String × Ty)) → (beqFields fs gs = true ↔ fs = gs)
  | [], gs => by cases gs <;> simp [beqFields]
  | (n, a) :: fs, gs => by
    cases gs with
    | nil => simp [beqFields]
    | cons g gs =>
      obtain ⟨m, b⟩ := g
      simp [beqFields, beq_iff a, beqFields_iff fs]
end

instance : DecidableEq Ty := fun a b => decidable_of_iff _ (beq_iff a b)

/-! ## Parts -/

/-- The kind of a type, whatever its name. -/
def kind : Ty → Kind
  | plain k => k
  | array _ => .array
  | pointer _ => .pointer
  | channel _ => .channel
  | map .. => .map
  | struct _ => .struct
  | named _ t => t.kind

/-- The declared name. -/
def name? : Ty → Option String
  | named n _ => some n
  | _ => none

/-- The type without its name. -/
def underlying : Ty → Ty
  | named _ t => t.underlying
  | t => t

/-- The same type under a new name. -/
def withName (name : String) : Ty → Ty
  | named _ t => named name t
  | t => named name t

/-- The type of items of arrays, targets of pointers, messages of channels and values of maps. -/
def elementType : Ty → Ty
  | array e | pointer e | channel e | map _ e => e
  | named _ t => t.elementType
  | _ => interface

/-- The type of keys of maps. -/
def keyType : Ty → Ty
  | map k _ => k
  | named _ t => t.keyType
  | _ => interface

/-- The declared fields of a struct type. -/
def fields? : Ty → Option (List (String × Ty))
  | struct fs => some fs
  | named _ t => t.fields?
  | _ => none

/-- The declared type of a field. -/
def field? (t : Ty) (name : String) : Option Ty := t.fields?.bind (·.lookup name)

/-- Whether every value has this type. -/
def isInterface (t : Ty) : Bool := t.kind == .interface

/-- The scalar types, `error` and the empty interface, by the names that programs use. -/
def ofName? : String → Option Ty
  | "bool" => some (plain .bool)
  | "byte" => some (plain .byte)
  | "int32" => some (plain .int32)
  | "int" => some (plain .int)
  | "int64" => some (plain .int64)
  | "float32" => some (plain .float32)
  | "float64" => some (plain .float64)
  | "string" => some (plain .string)
  | "error" => some (plain .error)
  | "interface\x7b\x7d" | "any" => some interface
  | _ => none

/-! ## Compatibility -/

/-- Whether a value of one type may stand where the other is required. The interface is
compatible with everything, structs are told apart by their names alone. -/
def compatible : Ty → Ty → Bool
  | plain k, other => k == .interface || other.isInterface || k == other.kind
  | array e, other =>
    other.isInterface || (other.kind == .array && compatible e other.elementType)
  | pointer e, other =>
    other.isInterface || (other.kind == .pointer && compatible e other.elementType)
  | channel e, other =>
    other.isInterface || (other.kind == .channel && compatible e other.elementType)
  | map k v, other =>
    other.isInterface ||
      (other.kind == .map && compatible k other.keyType && compatible v other.elementType)
  | struct _, other => other.isInterface || other.kind == .struct
  | named n t, other =>
    compatible t other &&
      (t.kind != .struct || other.kind != .struct ||
        match other.name? with
        | some m => n == m
        | none => true)

theorem compatible_interface (t : Ty) : compatible t interface = true := by
  induction t using Ty.rec (motive_2 := fun _ => True) (motive_3 := fun _ => True) <;>
    simp_all [compatible, isInterface, kind]

/-! ## Text -/

mutual
/-- The text of a type: its name, or its parts. -/
def display : Ty → String
  | plain .array => "[]interface\x7b\x7d"
  | plain .pointer => "*interface\x7b\x7d"
  | plain .channel => "chan interface\x7b\x7d"
  | plain .map => "map[interface\x7b\x7d]interface\x7b\x7d"
  | plain .struct => "struct\x7b\x7d"
  | plain k => k.name
  | array e => "[]" ++ display e
  | pointer e => "*" ++ display e
  | channel e => "chan " ++ display e
  | map k v => "map[" ++ display k ++ "]" ++ display v
  | struct fs => "struct\x7b" ++ displayFields fs ++ "\x7d"
  | named n _ => n

/-- The text of the fields of a struct type. -/
def displayFields : List (String × Ty) → String
  | [] => ""
  | [(n, t)] => n ++ " " ++ display t
  | (n, t) :: rest => n ++ " " ++ display t ++ "; " ++ displayFields rest
end

end Ty

end StackScript
