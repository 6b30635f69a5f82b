import StackScript.CommandLine.Report
import StackScript.CommandLine.Usage
import StackScript.Machine

/-!
# Conversations

Lines are typed one after the other; each one, or several when brackets stay open, is compiled and
run at once, and the values of expressions are shown. All of them share one compiler and one table,
so that later lines see what earlier ones declared. A line that fails is reported and the
conversation goes on. Lines are to be continued while more brackets were opened than closed;
brackets in strings do not count.

Main statements: `depthFrom_append` (lines can be counted one after the other) and `answer_blank`
(an empty line asks for nothing).
-/
namespace StackScript.CommandLine

/-- Where a reader of a text stands. -/
inductive Reading where
  /-- Outside of strings. -/
  | code
  /-- In a string between double quotes. -/
  | quoted
  /-- Behind a backslash in such a string. -/
  | escaped
  /-- In a string between backquotes, which has no escapes. -/
  | raw
deriving Repr, DecidableEq

namespace Reading

/-- Where a reader stands after a character. -/
def next : Reading → Char → Reading
  | code, '"' => quoted
  | code, '\x60' => raw
  | code, _ => code
  | quoted, '\\' => escaped
  | quoted, '"' => code
  | quoted, _ => quoted
  | escaped, _ => quoted
  | raw, '\x60' => code
  | raw, _ => raw

/-- What a character adds to the number of open brackets. -/
def weight : Reading → Char → Int
  | code, c =>
    if c = '\x7b' ∨ c = '(' ∨ c = '[' then 1
    else if c = '\x7d' ∨ c = ')' ∨ c = ']' then -1
    else 0
  | _, _ => 0

/-- The opened brackets less the closed ones in a text. -/
def depthFrom (r : Reading) : List Char → Int
  | [] => 0
  | c :: rest => r.weight c + (r.next c).depthFrom rest

/-- Where a reader stands after a text. -/
def after (r : Reading) (text : List Char) : Reading := text.foldl next r

theorem depthFrom_append (r : Reading) (a b : List Char) :
    r.depthFrom (a ++ b) = r.depthFrom a + (r.after a).depthFrom b := by
  induction a generalizing r with
  | nil => simp [depthFrom, after]
  | cons c a ih =>
    rw [List.cons_append, depthFrom, depthFrom, ih, Int.add_assoc]
    rfl

end Reading

/-- The opened brackets less the closed ones in a text, in 32 bits. -/
def openBrackets (text : String) : Int32 := .ofInt (Reading.code.depthFrom text.toList)

/-! ## Lines -/

/-- A conversation so far. -/
structure Conversation where
  style : Style
  machine : Machine
  compiler : Compiler
  table : TableRef
  /-- Lines that wait for their brackets to be closed. -/
  pending : String := ""
  /-- The lines that were run or are waiting, the last one first. -/
  history : List String := []
  /-- What was reported. -/
  errors : String := ""

/-- Print a text on a machine. -/
def printOn (m : Machine) (text : String) : Machine :=
  { m with world := { m.world with output := m.world.output ++ text } }

namespace Conversation

/-- Greet, with a table for the names to come. -/
def start (style : Style) (m : Machine) : Conversation :=
  let (table, m) := m.newMainTable
  { style := style
    machine := printOn m greeting
    compiler := { Compiler.new "repl" m.world.settings with echo := true }
    table := table }

/-- Print a text. -/
def print (c : Conversation) (text : String) : Conversation :=
  { c with machine := printOn c.machine text }

/-- Ask for a line. -/
def ask (c : Conversation) : Conversation :=
  c.print (c.style.paint .prompt (if c.pending.isEmpty then "tern> " else "  ... "))

/-- Run a source. -/
def run (c : Conversation) (source : String) : Conversation :=
  let (code, compiler, machine) := c.machine.compileWith c.compiler source
  let (result, machine) := match code with
    | .ok code => machine.execute code c.table
    | .error f => (.error f, machine)
  let report := match result with
    | .ok () => ""
    | .error f => c.style.paint .report f.display ++ "\n"
  { c with compiler := compiler, machine := machine, errors := c.errors ++ report }

/-- Take a line of a source, which is run when its brackets are closed. -/
def take (c : Conversation) (line : String) : Conversation :=
  let source := c.pending ++ line ++ "\n"
  let c := { c with history := line :: c.history, pending := source }
  if 0 < openBrackets source then c else { c with pending := "" }.run source

/-- Answer a line, unless it ends the conversation. -/
def answer (c : Conversation) (line : String) : Option Conversation :=
  if !c.pending.isEmpty then some (c.take line)
  else
    match Text.trim line with
    | "" => some c
    | "exit" | ".exit" | "quit" | ".quit" => none
    | ".help" => some (c.print conversationHelp)
    | ".vars" =>
      some (c.print (Text.join " " (c.machine.store.table c.table).names ++ "\n"))
    | _ => some (c.take line)

/-- Answer lines until one of them ends the conversation or there are no more. -/
def answerAll (c : Conversation) : List String → Conversation
  | [] => c.ask.print "\n"
  | line :: rest =>
    match c.ask.answer line with
    | some c => c.answerAll rest
    | none => c.ask

/-- The text of the lines that were typed. -/
def historyText (c : Conversation) : String := Text.join "\n" c.history.reverse

theorem answer_blank (c : Conversation) (h : c.pending = "") : c.answer "" = some c := by
  simp [answer, h, show Text.trim "" = "" from by decide +kernel]

end Conversation

end StackScript.CommandLine
