import StackScript.CommandLine.Conversation
import StackScript.Profile.Read

/-!
# The command line

From the arguments, the environment and the files that the tool finds, and the lines that are
typed, to what it prints, how it ends and the files it leaves. A script or a text is run to its
end; without either the tool holds a conversation.

Main statements: `run_refused` (arguments that cannot be read change no files).
-/
namespace StackScript.CommandLine

/-- What the tool finds around it. -/
structure Surroundings where
  args : List String
  environment : List (String × String) := []
  files : Files := {}
  /-- Whether what is printed goes to a terminal. -/
  terminal : Bool := false
  /-- Milliseconds since the epoch. -/
  clock : Int := 1700000000000
  /-- What random numbers are drawn from. -/
  seed : UInt64 := 0x9E3779B97F4A7C15

/-- How the tool ended. -/
structure Ending where
  exit : UInt8 := 0
  output : String := ""
  errors : String := ""
  files : Files := {}

namespace Surroundings

/-- The style of the tool's texts. -/
def style (h : Surroundings) : Style := .ofEnvironment h.environment h.terminal

/-- A variable of the environment. -/
def value? (h : Surroundings) (name : String) : Option String :=
  Association.find? name h.environment

/-- A path in the home directory, or where the tool was started if there is none. -/
def homePath (h : Surroundings) (path : String) : String :=
  match (h.value? "HOME").filter (· != "") with
  | some home => FilePath.join home path
  | none => path

/-- The file that profiles are kept in. -/
def profilePath (h : Surroundings) : String := h.homePath ".tern/tern.json"

/-- The file that typed lines are kept in. -/
def historyPath (h : Surroundings) : String := h.homePath ".tern_history"

end Surroundings

/-! ## Before a program runs -/

/-- The end of a call whose arguments ask for no command. -/
def refuse (h : Surroundings) (r : Refusal) : Ending :=
  match r with
  | .help => { errors := usageText, files := h.files }
  | .version => { output := versionText, files := h.files }
  | .misuse e =>
    { exit := misuseCode, errors := errorLine h.style e.message ++ usageText, files := h.files }

/-- The log file, if one is asked for. -/
def Surroundings.logPath? (h : Surroundings) (o : Options) : Option String :=
  o.logFile.or (h.value? "TERN_LOG_FILE")

/-- The files once the log file is there. -/
def openLog (h : Surroundings) (o : Options) : Except Fault Files :=
  match h.logPath? o with
  | none => .ok h.files
  | some path => (h.files.append path "").mapError Profiles.fileFault

/-- The profiles, and what is said when they cannot be read. -/
def openProfiles (h : Surroundings) (o : Options) (files : Files) : Profiles × String :=
  let (p, warning) := match ProfileReader.load h.profilePath files h.seed.toNat with
    | .ok p => (p, "")
    | .error f => (Profiles.inMemory, warningLine h.style f.display)
  match o.profile.or (h.value? "TERN_PROFILE") with
  | some name => (p.activate name, warning)
  | none => (p, warning)

/-- The settings of the active profile, over them those of the environment, over both those of the
options. -/
def settings (h : Surroundings) (o : Options) (p : Profiles) : Settings :=
  let s := Settings.ofItems p.get?
  let format := (h.value? "TERN_OUTPUT_FORMAT").bind fun name => (OutputFormat.ofName name).toOption
  o.override { s with outputFormat := format.getD s.outputFormat }

/-- A machine for the program. -/
def machine (h : Surroundings) (o : Options) (p : Profiles) (files : Files) (args : List String) :
    Machine :=
  let m := Machine.new (settings h o p)
  { m with world := { m.world with
      profiles := p, files := files, args := args, environment := h.environment
      clock := h.clock, entropy := h.seed } }

/-! ## Profiles -/

/-- What an action on the profiles prints and the profiles after it, or what it finds wrong. -/
def ConfigAction.perform (style : Style) (p : Profiles) :
    ConfigAction → Except String (String × Profiles)
  | .list =>
    let item (key : String) : String := "  " ++ key ++ " = " ++ (p.get? key).getD ""
    .ok (linesText ((style.paint .heading "profile" ++ " " ++ p.active) :: p.keys.map item), p)
  | .get key =>
    match p.get? key with
    | some value => .ok (value ++ "\n", p)
    | none => .error ("no such key: " ++ key)
  | .set key value => .ok ("", p.set key value)
  | .delete key =>
    if p.has key then .ok ("", p.delete key) else .error ("no such key: " ++ key)

/-- Carry out an action on the profiles and keep them. -/
def configure (h : Surroundings) (action : ConfigAction) (p : Profiles) (files : Files)
    (warning : String) : Ending :=
  match action.perform h.style p with
  | .error message => { exit := 1, errors := warning ++ errorLine h.style message, files := files }
  | .ok (output, p) =>
    match p.save files with
    | .ok (_, files) => { output := output, errors := warning, files := files }
    | .error f =>
      { exit := failureCode, output := output,
        errors := warning ++ errorLine h.style f.display, files := files }

/-! ## Programs -/

/-- Compile and run a program. -/
def runSource (o : Options) (name source : String) (directory : Option String) (m : Machine) :
    Except Fault Unit × Machine :=
  match m.compileWith { Compiler.new name m.world.settings with baseDirectory := directory } source with
  | (.error f, _, m) => (.error f, m)
  | (.ok code, c, m) =>
    let m := if o.disassemble then printOn m (code.listing m.store ++ "---\n") else m
    m.runProgram code (Machine.callsMain c)

/-- Run the program in a file. Its imports are looked for beside it. -/
def runFile (o : Options) (path : String) (m : Machine) : Except Fault Unit × Machine :=
  match m.world.files.read path with
  | .error _ => (.error (.about .io path), m)
  | .ok source =>
    runSource o ((FilePath.stem? path).getD "main") source (FilePath.parent? path) m

/-- The end of a program: the profiles are kept, and a fault is reported. -/
def finish (h : Surroundings) (errors : String) (result : Except Fault Unit) (m : Machine) :
    Ending :=
  let (files, errors) := match m.world.profiles.save m.world.files with
    | .ok (_, files) => (files, errors)
    | .error f => (m.world.files, errors ++ warningLine h.style f.display)
  match result with
  | .ok () =>
    { exit := exitBits m.world.exitCode, output := m.world.output, errors := errors,
      files := files }
  | .error f =>
    { exit := exitCode f, output := m.world.output,
      errors := errors ++ reportText h.style m.world.settings.outputFormat f, files := files }

/-! ## Calls of the tool -/

/-- What a call of the tool comes to before a line is typed. -/
inductive Call where
  | ended (e : Ending)
  | conversing (c : Conversation)

/-- Begin a call. -/
def begin (h : Surroundings) : Call :=
  match Options.read h.args with
  | .error r => .ended (refuse h r)
  | .ok o =>
    match openLog h o with
    | .error f =>
      .ended
        { exit := failureCode, errors := errorLine h.style f.display, files := h.files }
    | .ok files =>
      let (p, warning) := openProfiles h o files
      let ended (args : List String) (step : Machine → Except Fault Unit × Machine) : Call :=
        let (result, m) := step (machine h o p files args)
        .ended (finish h warning result m)
      match o.command with
      | .config action => .ended (configure h action p files warning)
      | .script file args => ended args (runFile o file)
      | .text code => ended [] (runSource o "eval" code none)
      | .interact =>
        .conversing { Conversation.start h.style (machine h o p files []) with errors := warning }

/-- End a conversation: goroutines run to their ends and the typed lines are kept. -/
def close (h : Surroundings) (c : Conversation) : Ending :=
  let m := c.machine.join
  let files := (m.world.files.write h.historyPath c.historyText).toOption.getD m.world.files
  let m := printOn { m with world := { m.world with files := files } } "Goodbye!\n"
  finish h c.errors (.ok ()) m

/-- A whole call with all that is typed. -/
def run (h : Surroundings) (input : String) : Ending :=
  match begin h with
  | .ended e => e
  | .conversing c => close h (c.answerAll (Text.lines input))

theorem run_refused {h : Surroundings} {r : Refusal} (input : String)
    (refused : Options.read h.args = .error r) : (run h input).files = h.files := by
  cases r <;> simp [run, begin, refused, refuse]

end StackScript.CommandLine
