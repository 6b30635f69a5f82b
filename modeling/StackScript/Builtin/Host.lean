import StackScript.Builtin.Call
import StackScript.Calendar.Layout

/-!
# The packages of the host

The environment, arguments and the exit code; the active profile; and what a program can see of
its own names.

Main statements: `visibleFrom_root` (no names are listed at the root).
-/
namespace StackScript

namespace OsFn

/-- A function of the package. Leaving a program stops it. -/
def run (f : OsFn) (c : NativeCall) : WorldM Value := do
  match f with
  | .getenv =>
    let name ← c.text 0
    pure (.string ((Association.find? name (← getThe World).environment).getD ""))
  | .args => do NativeCall.texts (← getThe World).args
  | .exit =>
    let code ← if c.args.isEmpty then pure 0 else c.int "os.exit" 0
    World.exit code.toInt32
    throw (.of .stop)

end OsFn

namespace ProfileFn

/-- Change the profiles and write them. -/
def update (f : Profiles → Profiles) : WorldM Unit := do
  modifyThe World fun w => { w with profiles := f w.profiles }
  let w ← getThe World
  match w.profiles.save w.files with
  | .ok (profiles, files) => modifyThe World fun w => { w with profiles := profiles, files := files }
  | .error f => throw f

/-- A function of the package. -/
def run (f : ProfileFn) (c : NativeCall) : WorldM Value := do
  let key ← c.text 0
  match f with
  | .get => do pure (.string (((← getThe World).profiles.get? key).getD ""))
  | .set =>
    let value ← c.text 1
    update (·.set key value)
    pure .nil
  | .delete =>
    let present := (← getThe World).profiles.has key
    update (·.delete key)
    pure (.bool present)
  | .has => do pure (.bool ((← getThe World).profiles.has key))
  | .keys => do NativeCall.texts (← getThe World).profiles.keys

end ProfileFn

namespace UtilFn

/-- The names of a bounded chain of tables up to the root, from the nearest one on. -/
def namesTo (s : Store) : (bound : Nat) → TableRef → List String
  | 0, _ => []
  | bound + 1, r =>
    let t := s.table r
    if t.isRoot then []
    else
      t.names ++ match t.parent with
        | some parent => namesTo s bound parent
        | none => []

/-- The names that a program can see below the root, in ascending order; names that start with a
dollar sign are not shown. -/
def visibleFrom (s : Store) (r : TableRef) : List String :=
  sortNames ((namesTo s (r.index + 1) r).filter fun n => !Text.startsWith n "$").eraseDups

/-- A function of the package. -/
def run (f : UtilFn) (c : NativeCall) : WorldM Answer := do
  match f with
  | .eval => do pure (.evaluate (← c.text 0))
  | .symbols => do
    .value <$> NativeCall.texts (visibleFrom (← getThe Store) c.caller)

theorem visibleFrom_root {s : Store} {r : TableRef} (h : (s.table r).isRoot = true) :
    visibleFrom s r = [] := by
  simp [visibleFrom, namesTo, h, sortNames]

end UtilFn

end StackScript

/-!
## The package of time

Instants are whole milliseconds since the start of 1970.
-/
namespace StackScript.TimeFn

/-- The layout of an instant when none is given. -/
def defaultLayout : String := "%Y-%m-%d %H:%M:%S"

/-- Write an instant in a layout. The call breaks down at a layout that cannot be written. -/
def written (millis : Int64) (layout : String) : WorldM Answer :=
  match Instant.ofMillis? millis.toInt with
  | some t =>
    match Calendar.format? t layout with
    | some text => pure (.value (.string text))
    | none => pure (.wait .never)
  | none => throw (.about .argumentType (Decimal.ofInt millis.toInt))

/-- An instant in a layout or in the default one. -/
def formatted (c : NativeCall) : WorldM Answer := do
  let millis ← c.int "time.format" 0
  written millis (← if 1 < c.args.length then c.text 1 else pure defaultLayout)

/-- A function of the package. -/
def run (f : TimeFn) (c : NativeCall) : WorldM Answer := do
  let now := (← getThe World).clock
  match f with
  | .now => pure (.value (.int (Int64.ofInt now)))
  | .unix => pure (.value (.int (Int64.ofInt (now / 1000))))
  | .sleep =>
    let millis ← c.int "time.sleep" 0
    pure (.wait (.clock (now + max millis.toInt 0)))
  | .since => do pure (.value (.int (Int64.ofInt now - (← c.int "time.since" 0))))
  | .format => formatted c

end StackScript.TimeFn
