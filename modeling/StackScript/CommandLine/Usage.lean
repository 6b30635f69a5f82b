import StackScript.Text.Case
import StackScript.Text.Layout
import StackScript.CommandLine.Options

/-!
# Usage and log classes

What the tool is told about its log, and the texts that say how it is called.
-/

/-!
## Log classes

Messages of the tool itself belong to classes. A list of class names says which of them are shown;
all others show warnings only.
-/
namespace StackScript.Log

/-- The classes. -/
def classes : List String :=
  ["app", "compiler", "bytecode", "trace", "symbols", "user", "config"]

/-- The directive that shows a class down to a level. -/
def directive (level className : String) : String := "tern::" ++ className ++ "=" ++ level

/-- The directives of one name in a list: those of its class or of all classes, or none. -/
def directivesOf (name : String) : List String :=
  if name = "all" then classes.map (directive "debug")
  else if !classes.contains name then []
  else [directive (if name = "trace" then "trace" else "debug") name]

/-- The filter for a list of class names with commas between them, in any case. -/
def directives (enabled : String) : String :=
  let names := (enabled.splitOn ",").map fun name => Text.toLower (Text.trim name)
  Text.join "," ("warn" :: names.flatMap directivesOf)

end StackScript.Log

/-!
## Usage

The texts that say what the tool is and how it is called.
-/
namespace StackScript.CommandLine

/-- The version of the tool. -/
def version : String := "0.9.0"

/-- What `--version` prints. -/
def versionText : String := "tern " ++ version ++ "\n"

/-- Lines, each with its end. -/
def linesText (lines : List String) : String := String.join (lines.map (· ++ "\n"))

/-- How the tool is called. -/
def usageText : String :=
  linesText [
    "Tern " ++ version ++ " - embeddable scripting runtime",
    "",
    "Usage: tern [options] [script.tern] [args...]",
    "       tern [options] -e <code>",
    "       tern config <list|get KEY|set KEY VALUE|delete KEY>",
    "",
    "Options:",
    "  --types MODE      Operand typing: strict, relaxed or dynamic",
    "  --disassemble     Print the compiled bytecode before running",
    "  --trace           Log every executed instruction (class 'trace')",
    "  --log LIST        Enable log classes, e.g. compiler,symbols",
    "  --log-file PATH   Append log output to a file",
    "  --format FORMAT   Diagnostics as text or json",
    "  --profile NAME    Use a named settings profile",
    "  --help, -h        Show this help message",
    "",
    "Log classes: " ++ Text.join ", " Log.classes]

/-- What greets at the start of a conversation. -/
def greeting : String :=
  linesText ["Tern " ++ version ++ " - REPL", "Type .help for available commands.", ""]

/-- What `.help` prints. -/
def conversationHelp : String :=
  linesText [
    "  .help     show this message",
    "  .vars     list variables defined in this session",
    "  .exit     leave the REPL"]

end StackScript.CommandLine
