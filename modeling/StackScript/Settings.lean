import StackScript.Fault
import StackScript.Text.Case

/-!
# Settings

How strictly operators treat operands of different kinds, how diagnostics are written, and the
other choices that compiling and running consult.

Main statements: `Strictness.ofLevel_level` (a level says which strictness it came from).
-/
namespace StackScript

/-- How operators treat operands of different kinds. -/
inductive Strictness where
  /-- The kinds must agree. -/
  | strict
  /-- Operands are promoted to the wider kind. -/
  | relaxed
  /-- Promotion is tried; where it fails the texts are compared. -/
  | dynamic
deriving Repr, DecidableEq, Inhabited

namespace Strictness

/-- The number that stands for a strictness in code. -/
def level : Strictness → Int64
  | strict => 0
  | relaxed => 1
  | dynamic => 2

/-- The strictness of a number; every other number is the most lenient. -/
def ofLevel (n : Int64) : Strictness :=
  if n = 0 then strict else if n = 1 then relaxed else dynamic

/-- The name of a strictness. -/
def name : Strictness → String
  | strict => "strict"
  | relaxed => "relaxed"
  | dynamic => "dynamic"

/-- Read a strictness, in any case and between blanks. -/
def ofName (text : String) : Except Fault Strictness :=
  match Text.toLower (Text.trim text) with
  | "strict" => .ok strict
  | "relaxed" => .ok relaxed
  | "dynamic" | "none" => .ok dynamic
  | other => .error (.about .invalidDirective other)

theorem ofLevel_level (s : Strictness) : ofLevel s.level = s := by cases s <;> rfl

end Strictness

/-- How diagnostics are written. -/
inductive OutputFormat where
  | text
  | json
deriving Repr, DecidableEq, Inhabited

/-- Read an output format, in any case and between blanks. -/
def OutputFormat.ofName (name : String) : Except Fault OutputFormat :=
  match Text.toLower (Text.trim name) with
  | "text" => .ok text
  | "json" => .ok json
  | other => .error (.about .invalidDirective other)

/-- Whether a setting's text switches it on. -/
def isTrueText (text : String) : Bool :=
  ["true", "yes", "1", "on"].contains (Text.toLower (Text.trim text))

/-- What compiling and running consult. -/
structure Settings where
  strictness : Strictness := .relaxed
  /-- Whether names are lower-cased while compiling. -/
  normalize : Bool := false
  /-- Whether executed instructions are logged. -/
  trace : Bool := false
  /-- Directories that imports are looked for in. -/
  importPath : List String := []
  outputFormat : OutputFormat := .text
deriving Repr

namespace Settings

/-- The key of the strictness in a profile. -/
def typesKey : String := "tern.compiler.types"

/-- The key of name normalisation in a profile. -/
def normalizeKey : String := "tern.compiler.normalize"

/-- The key of the instruction log in a profile. -/
def traceKey : String := "tern.runtime.trace"

/-- The settings that a look-up of keys gives; unreadable values keep their defaults. -/
def ofItems (item? : String → Option String) : Settings :=
  { strictness := ((item? typesKey).bind fun text => (Strictness.ofName text).toOption).getD .relaxed
    normalize := (item? normalizeKey).any isTrueText
    trace := (item? traceKey).any isTrueText }

end Settings

end StackScript
