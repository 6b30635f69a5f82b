import StackScript.Settings

/-!
# Options

What the arguments of the command line ask for. They are read from left to right; the first one
that cannot be read, or that asks for help or for the version, ends the reading. A script and the
word `config` take all arguments after them.

Main statements: `read_script` (a script takes the arguments after it).
-/
namespace StackScript.CommandLine

/-- What to do with the items of the active profile. -/
inductive ConfigAction where
  | list
  | get (key : String)
  | set (key value : String)
  | delete (key : String)
deriving Repr, DecidableEq

/-- What the tool is to do. -/
inductive Command where
  /-- Run a script; the arguments are the program's. -/
  | script (file : String) (args : List String)
  /-- Run a text. -/
  | text (code : String)
  /-- Read lines and run them. -/
  | interact
  /-- Look at the active profile or change it. -/
  | config (action : ConfigAction)
deriving Repr, DecidableEq

/-- What the arguments ask for. -/
structure Options where
  command : Command := .interact
  types : Option Strictness := none
  /-- Whether the listing of the code is printed first. -/
  disassemble : Bool := false
  trace : Bool := false
  /-- The log classes to show. -/
  log : Option String := none
  logFile : Option String := none
  format : Option OutputFormat := none
  profile : Option String := none
deriving Repr

/-- Why arguments cannot be read. -/
inductive UsageError where
  | valueMissing (flag : String)
  | unknownTypes (value : String)
  | unknownFormat (value : String)
  | unknownOption (name : String)
  | keyMissing (action : String)
  | configValueMissing (action : String)
  | unknownAction (name : String)
deriving Repr, DecidableEq

/-- The text of the error. -/
def UsageError.message : UsageError → String
  | valueMissing flag => flag ++ " requires a value"
  | unknownTypes value => "unknown typing mode: " ++ value
  | unknownFormat value => "unknown output format: " ++ value
  | unknownOption name => "unknown option: " ++ name
  | keyMissing action => "config " ++ action ++ " requires a key"
  | configValueMissing action => "config " ++ action ++ " requires a value"
  | unknownAction name => "unknown config action: " ++ name

/-- Why no command is carried out. -/
inductive Refusal where
  | help
  | version
  | misuse (e : UsageError)
deriving Repr, DecidableEq

/-- What follows the word `config`. -/
def ConfigAction.read : List String → Except UsageError ConfigAction
  | [] | "list" :: _ => .ok list
  | "get" :: key :: _ => .ok (get key)
  | "set" :: key :: value :: _ => .ok (set key value)
  | "delete" :: key :: _ => .ok (delete key)
  | ["set", _] => .error (.configValueMissing "set")
  | ["get"] => .error (.keyMissing "get")
  | ["set"] => .error (.keyMissing "set")
  | ["delete"] => .error (.keyMissing "delete")
  | name :: _ => .error (.unknownAction name)

namespace Options

/-- A flag with the value after it. -/
def withValue (o : Options) (flag value : String) : Except UsageError Options :=
  match flag with
  | "--types" =>
    match Strictness.ofName value with
    | .ok types => .ok { o with types := some types }
    | .error _ => .error (.unknownTypes value)
  | "--format" =>
    match OutputFormat.ofName value with
    | .ok format => .ok { o with format := some format }
    | .error _ => .error (.unknownFormat value)
  | "--log" => .ok { o with log := some value }
  | "--log-file" => .ok { o with logFile := some value }
  | "--profile" => .ok { o with profile := some value }
  | _ => .ok { o with command := .text value }

/-- The flags that a value follows. -/
def valueFlags : List String := ["--types", "--format", "--log", "--log-file", "--profile", "-e"]

/-- Read arguments after those that were read already. -/
def readAfter (o : Options) : List String → Except Refusal Options
  | [] => .ok o
  | arg :: rest =>
    if valueFlags.contains arg then
      match rest with
      | [] => .error (.misuse (.valueMissing arg))
      | value :: rest =>
        match o.withValue arg value with
        | .ok o => readAfter o rest
        | .error e => .error (.misuse e)
    else
      match arg with
      | "--help" | "-h" => .error .help
      | "--version" | "-V" => .error .version
      | "--disassemble" => readAfter { o with disassemble := true } rest
      | "--trace" => readAfter { o with trace := true } rest
      | "config" =>
        match ConfigAction.read rest with
        | .ok action => .ok { o with command := .config action }
        | .error e => .error (.misuse e)
      | name =>
        if name.startsWith "-" then .error (.misuse (.unknownOption name))
        else .ok { o with command := .script name rest }

/-- Read all arguments. -/
def read (args : List String) : Except Refusal Options := readAfter {} args

/-- Settings changed by the options. -/
def override (o : Options) (s : Settings) : Settings :=
  { s with
    strictness := o.types.getD s.strictness
    outputFormat := o.format.getD s.outputFormat
    trace := s.trace || o.trace }

theorem read_script (o : Options) {file : String} (args : List String)
    (plain : file.startsWith "-" = false) (script : file ≠ "config") :
    readAfter o (file :: args) = .ok { o with command := .script file args } := by
  have differs (flag : String) (h : flag.startsWith "-" = true) : file ≠ flag := by
    rintro rfl
    simp [plain] at h
  have := differs "--types" (by decide +kernel)
  have := differs "--format" (by decide +kernel)
  have := differs "--log" (by decide +kernel)
  have := differs "--log-file" (by decide +kernel)
  have := differs "--profile" (by decide +kernel)
  have := differs "-e" (by decide +kernel)
  have := differs "--help" (by decide +kernel)
  have := differs "-h" (by decide +kernel)
  have := differs "--version" (by decide +kernel)
  have := differs "-V" (by decide +kernel)
  have := differs "--disassemble" (by decide +kernel)
  have := differs "--trace" (by decide +kernel)
  unfold readAfter
  simp [valueFlags, *]

end Options

end StackScript.CommandLine
