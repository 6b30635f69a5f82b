import StackScript.Store
import StackScript.Settings
import StackScript.Files
import StackScript.Profile

/-!
# The world of a program

What programs share beside the store: settings, profiles, files, arguments and the environment,
what was printed, the exit code, the clock, the functions launched but not started yet, and the
count of those that have not ended.

Main statements: `write_output` (printing adds to what was printed).
-/
namespace StackScript

/-- A count after a change, which cannot make it negative. -/
def counted? (count delta : Int) : Option Int :=
  if count + delta < 0 then none else some (count + delta)

/-- A function to be run beside the others. -/
structure Launch where
  callee : Value
  args : List Value
  receiver : Option Value

/-- What programs share beside the store. -/
structure World where
  settings : Settings := {}
  profiles : Profiles := .inMemory
  files : Files := {}
  /-- What the program was started with. -/
  args : List String := []
  environment : List (String × String) := []
  /-- The table of builtins. -/
  root : TableRef := ⟨0⟩
  output : String := ""
  exitCode : Int32 := 0
  hasExited : Bool := false
  /-- Milliseconds since the epoch. -/
  clock : Int := 1700000000000
  /-- What random numbers are drawn from. -/
  entropy : UInt64 := 0x9E3779B97F4A7C15
  /-- Functions to be started, the oldest first. -/
  launched : List Launch := []
  /-- How many functions were launched and have not ended yet. -/
  active : Int := 0

/-- Computations on the world and the store that can fail; what a failed one has done stays. -/
abbrev WorldM := ExceptT Fault (StateT World (StateM Store))

instance : MonadLift StoreM WorldM where
  monadLift m := fun w s =>
    let (result, s) := m s
    ((result, w), s)

namespace World

/-- Print a text. -/
def write (text : String) : WorldM Unit :=
  fun w s => ((.ok (), { w with output := w.output ++ text }), s)

/-- Set the exit code, after which no more functions of the program are started. -/
def exit (code : Int32) : WorldM Unit :=
  fun w s => ((.ok (), { w with exitCode := code, hasExited := true }), s)

/-- The world with another function to be started, which counts from now on. -/
def launching (w : World) (l : Launch) : World :=
  match counted? w.active 1 with
  | some count => { w with launched := w.launched ++ [l], active := count }
  | none => w

/-- Launch a function. -/
def launch (l : Launch) : WorldM Unit := fun w s => ((.ok (), w.launching l), s)

/-- A function that was launched has ended. -/
def done (w : World) : World := { w with active := (counted? w.active (-1)).getD w.active }

/-- Draw a random number of 64 bits. -/
def draw : WorldM UInt64 := fun w s =>
  let state := w.entropy * 6364136223846793005 + 1442695040888963407
  let mixed := (state ^^^ (state >>> 33)) * 0xFF51AFD7ED558CCD
  ((.ok (mixed ^^^ (mixed >>> 33)), { w with entropy := state }), s)

theorem write_output (text : String) (w : World) (s : Store) :
    ((write text) w s).1.2.output = w.output ++ text := rfl

end World

end StackScript
