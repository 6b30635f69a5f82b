import StackScript.CommandLine
import StackScript.CommandLine.Sources

/-!
# The program

The tool as a program: what it needs of the system is fetched, the call is carried out, and what it
printed and wrote is handed over. A conversation is answered line by line.
-/
namespace StackScript.CommandLine.Program

/-! ## What the system knows -/

/-- The environment. -/
def environment : IO (List (String × String)) := do
  let text ← try IO.FS.readFile "/proc/self/environ" catch _ => pure ""
  pure ((text.splitOn "\x00").filterMap fun entry =>
    match entry.splitOn "=" with
    | name :: value@(_ :: _) => some (name, "=".intercalate value)
    | _ => none)

/-- Milliseconds from a number of seconds with two places. -/
def milliseconds (text : String) : Int :=
  match text.splitOn "." with
  | [whole, part] => whole.toNat?.getD 0 * 1000 + part.toNat?.getD 0 * 10
  | _ => 0

/-- The time: when the system was started, and how long it has been running. -/
def clock : IO Int := do
  try
    let status ← IO.FS.readFile "/proc/stat"
    let started := (status.splitOn "\n").findSome? fun line =>
      match line.splitOn " " with
      | ["btime", seconds] => seconds.toNat?
      | _ => none
    let running := ((← IO.FS.readFile "/proc/uptime").splitOn " ").headD ""
    pure (started.getD 0 * 1000 + milliseconds running)
  catch _ => pure 0

/-- A random number. -/
def seed : IO UInt64 := do
  let bytes ← IO.getRandomBytes 8
  pure (bytes.toList.foldl (fun n b => n * 256 + b.toUInt64) 0)

/-! ## Files -/

/-- Fetch a file if it is there. -/
def fetch (files : Files) (path : String) : IO Files := do
  try
    let text ← IO.FS.readFile path
    let files := files.withDirectory ((FilePath.parent? path).getD "")
    pure (files.put (files.names path) text)
  catch _ => pure files

/-- Fetch a source and what it imports. -/
partial def fetchSource (files : Files) (path : String) : IO Files := do
  if files.isFile path then pure files
  else
    let files ← fetch files path
    match files.read path with
    | .error _ => pure files
    | .ok source =>
      (importedFiles (FilePath.parent? path) source).foldlM fetchSource files

/-- Open the log file, which is made if there is none. -/
def fetchLog (files : Files) (path : String) : IO Files := do
  try
    IO.FS.withFile path .append fun _ => pure ()
    fetch files path
  catch _ => pure files

/-- What a call with these arguments finds. -/
def surroundings (args : List String) : IO Surroundings := do
  let working ← IO.currentDir
  let h : Surroundings :=
    { args := args
      environment := ← environment
      files := { working := FilePath.parts working.toString }
      terminal := ← (← IO.getStdout).isTty
      clock := ← clock
      seed := ← seed }
  match Options.read args with
  | .error _ => pure h
  | .ok o =>
    let files := h.files.withDirectory (h.homePath "")
    let files ← fetch files h.profilePath
    let files ← match h.logPath? o with
      | some path => fetchLog files path
      | none => pure files
    let files ← match o.script? with
      | some path => fetchSource files path
      | none => pure files
    pure { h with files := files }

/-- Write the files that differ from those before. -/
def store (before after : Files) : IO Unit :=
  after.texts.forM fun (names, text) => do
    if before.text? names != some text then
      try
        IO.FS.createDirAll ("/" ++ "/".intercalate names.dropLast)
        IO.FS.writeFile ("/" ++ "/".intercalate names) text
      catch _ => pure ()

/-! ## The call -/

/-- Hand over what a conversation printed and reported. -/
def Conversation.flush (c : Conversation) : IO Conversation := do
  IO.print c.machine.world.output
  (← IO.getStdout).flush
  IO.eprint c.errors
  pure { c with
    errors := ""
    machine := { c.machine with world := { c.machine.world with output := "" } } }

/-- Answer lines until the conversation ends. -/
partial def converse (input : IO.FS.Stream) (c : Conversation) : IO Conversation := do
  let c ← Conversation.flush c.ask
  let text ← input.getLine
  match Text.lines text with
  | [] => pure (c.print "\n")
  | line :: _ =>
    let files ← (importedFiles none line).foldlM fetchSource c.machine.world.files
    let world := { c.machine.world with files := files }
    match { c with machine := { c.machine with world := world } }.answer line with
    | some c => converse input c
    | none => pure c

/-- Carry out a call. -/
def run (args : List String) : IO UInt32 := do
  let h ← surroundings args
  let e ← match begin h with
    | .ended e => pure e
    | .conversing c => do
      let c ← converse (← IO.getStdin) c
      pure (close h c)
  IO.print e.output
  IO.eprint e.errors
  store h.files e.files
  pure e.exit.toUInt32

end StackScript.CommandLine.Program

/-- The program. -/
def main (args : List String) : IO UInt32 := StackScript.CommandLine.Program.run args
