import StackScript.Association
import StackScript.Text.Layout
import StackScript.Fault
import StackScript.Json
import StackScript.Settings

/-!
# Reports

How the tool writes its own texts and the faults that end a program.

Main statements: `paint_plain` (without colours a text stays as it is) and `exitCode_ne_zero` (a
fault is never reported as a success).
-/

/-!
## Style

How parts of the tool's own texts are set off on a terminal: by escape sequences around them, or
not at all. The environment can force colours or forbid them; otherwise they are for terminals.
-/
namespace StackScript.CommandLine

/-- What a text is set off as. -/
inductive Paint where
  | error
  | warning
  | report
  | prompt
  | heading
deriving Repr, DecidableEq

/-- The numbers of the escape sequence: bold is 1, red 31, yellow 33, cyan 36. -/
def Paint.codes : Paint → String
  | error => "1;31"
  | warning => "1;33"
  | report => "31"
  | prompt => "36"
  | heading => "1"

/-- The escape sequence that starts to set a text off. -/
def Paint.opening (p : Paint) : String := "\x1b[" ++ p.codes ++ "m"

/-- The escape sequence that ends it. -/
def Paint.closing : String := "\x1b[0m"

/-- Whether texts are coloured. -/
structure Style where
  colored : Bool := false
deriving Repr, DecidableEq

namespace Style

/-- Whether a variable is set to anything but zero. -/
def isOn (environment : List (String × String)) (name : String) : Option Bool :=
  (Association.find? name environment).map (· != "0")

/-- The style that the environment asks for: colours are forced, else forbidden, else for
terminals. -/
def ofEnvironment (environment : List (String × String)) (terminal : Bool) : Style where
  colored :=
    if isOn environment "CLICOLOR_FORCE" == some true then true
    else if (isOn environment "NO_COLOR").isSome then false
    else (isOn environment "CLICOLOR").getD true && terminal

/-- Set a text off. Where the text ends a colour of its own, this one goes on. -/
def paint (s : Style) (p : Paint) (text : String) : String :=
  if !s.colored then text
  else
    let inner := Text.join (Paint.closing ++ p.opening) (Text.split text Paint.closing)
    p.opening ++ inner ++ Paint.closing

theorem paint_plain (p : Paint) (text : String) : (Style.mk false).paint p text = text := rfl

end Style

/-!
## Reporting faults

How a fault that ends a program is written, and the exit code it gives. Faults of reading a
program and faults of running it have exit codes of their own.
-/

/-- A fault as an object with the members that tools ask for. -/
def diagnostic (f : Fault) : JsonValue :=
  .ofMembers [
    ("class", .string f.kind.phase.name),
    ("module", (f.moduleName.map JsonValue.string).getD .null),
    ("line", .whole f.line),
    ("column", .whole f.column),
    ("message", .string f.message)]

/-- The text of a fault as it is reported. -/
def reportText (style : Style) (format : OutputFormat) (f : Fault) : String :=
  match format with
  | .text => style.paint .report f.display ++ "\n"
  | .json => (diagnostic f).text ++ "\n"

/-- A line that says what keeps the tool from going on. -/
def errorLine (style : Style) (message : String) : String :=
  style.paint .error "error:" ++ " " ++ message ++ "\n"

/-- A line that says what the tool goes on without. -/
def warningLine (style : Style) (message : String) : String :=
  style.paint .warning "warning:" ++ " " ++ message ++ "\n"

/-- The exit code for arguments that cannot be read. -/
def misuseCode : UInt8 := 64

/-- The exit code for a program that cannot be compiled. -/
def sourceCode : UInt8 := 65

/-- The exit code for every other failure. -/
def failureCode : UInt8 := 70

/-- The exit code of a fault. -/
def exitCode (f : Fault) : UInt8 :=
  match f.kind.phase with
  | .compile | .tokenizer => sourceCode
  | _ => failureCode

/-- The low bits of a program's own exit code, which is all that a system keeps. -/
def exitBits (code : Int32) : UInt8 := (code.toInt % 256).toNat.toUInt8

theorem exitCode_ne_zero (f : Fault) : exitCode f ≠ 0 := by
  unfold exitCode
  split <;> decide

end StackScript.CommandLine
