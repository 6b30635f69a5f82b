import StackScript.Json.Read
import StackScript.Profile
import StackScript.Text.Quoted

/-!
# Reading profiles

The file of profiles is an object with a member for each of them. A profile is an object, or a
list of its description, identifier and items; what else its object holds is passed over. A value
of the wrong sort is a fault at the place behind it.
-/
namespace StackScript.ProfileReader

open JsonReader

/-- The sort of a value in messages. -/
def sortText : JsonValue → String
  | .null => "null"
  | .bool b => "boolean \x60" ++ (if b then "true" else "false") ++ "\x60"
  | .whole n => "integer \x60" ++ Decimal.ofInt n ++ "\x60"
  | .fraction x => "floating point \x60" ++ Decimal.scientific x ++ "\x60"
  | .string s => "string " ++ Text.quote s
  | .array _ => "sequence"
  | .object _ => "map"

/-- The problem of a value of a wrong sort. -/
def wrongSort (v : JsonValue) (expected : String) : Problem :=
  .other ("invalid type: " ++ sortText v ++ ", expected " ++ expected)

/-- Refuse the value that starts with a byte. The brackets of a list or an object stay. -/
def refuse {α : Type} (b : UInt8) (expected : String) : ReadM α := do
  if b == code '[' then failHere (wrongSort (.array []) expected)
  else if b == code '\x7b' then failHere (wrongSort (.object []) expected)
  else
    let v ← leaf b
    failHere (wrongSort v expected)

/-- A string, named in messages as given. -/
def stringNamed (expected : String) : ReadM String := do
  match ← skipBlanks with
  | none => failPeek .endInValue
  | some b =>
    if b == code '"' then
      skip
      stringRest
    else refuse b expected

/-- The problem of a structure, which is placed behind its closing bracket if that is next. -/
def failBehind {α : Type} (c : Char) (p : Problem) : ReadM α := do
  try closing c .endInObject catch _ => pure ()
  failHere p

/-- An object whose members are read one after the other into a state. -/
def object {σ : Type} (expected : String) (start : σ) (member : σ → String → ReadM σ) :
    ReadM σ := do
  match ← skipBlanks with
  | none => failPeek .endInValue
  | some b =>
    if b != code '\x7b' then refuse b expected
    else
      skip
      let (_, result) ← repeatTurns (true, start) fun (first, state) => do
        if ← hasMember first then
          let name ← memberName
          pure (.again (false, ← member state name))
        else pure (.done (first, state))
      pure result

/-- The end of an object that was read to its closing brace. -/
def objectEnd : ReadM Unit := closing '\x7d' .endInObject

/-- The items of a profile. -/
def items : ReadM (List (String × String)) := do
  let found ← object "a map" [] fun found name => do
    colon
    let v ← stringNamed "a string"
    pure (Association.insert name v found)
  objectEnd
  pure found

/-- An identifier in a string. -/
def identifier : ReadM Identifier := do
  match Identifier.read (← stringNamed "a UUID string") with
  | .ok i => pure i
  | .error p => failHere (.other ("UUID parsing failed: " ++ p.text))

/-- What was read of a profile so far. -/
structure Gathered where
  description : Option String := none
  id : Option Identifier := none
  items : Option (List (String × String)) := none

/-- The profile that was read; without an identifier there is none. -/
def Gathered.profile? (p : Gathered) : Option Profile :=
  p.id.map fun id => ⟨p.description.getD "", id, p.items.getD []⟩

/-- Read a part of a profile unless it was there before. -/
def once {α : Type} (name : String) (before : Option α) (value : ReadM α) : ReadM (Option α) := do
  if before.isSome then failBehind '\x7d' (.other ("duplicate field \x60" ++ name ++ "\x60"))
  else
    colon
    pure (some (← value))

/-- Pass over a value. -/
def ignored : ReadM Unit := do
  let _ ← valueTo ((← get).rest.length + 1)

/-- One member of a profile. -/
def profileMember (p : Gathered) (name : String) : ReadM Gathered := do
  match name with
  | "description" =>
    pure { p with description := ← once name p.description (stringNamed "a string") }
  | "id" => pure { p with id := ← once name p.id identifier }
  | "items" => pure { p with items := ← once name p.items items }
  | _ =>
    colon
    ignored
    pure p

/-- A profile as an object. -/
def profileObject : ReadM Profile := do
  let p ← object "struct Profile" ({} : Gathered) profileMember
  match p.profile? with
  | some profile =>
    objectEnd
    pure profile
  | none => failBehind '\x7d' (.other "missing field \x60id\x60")

/-- A part of a profile in a list. -/
def listPart {α : Type} (first : Bool) (value : ReadM α) : ReadM (Option α) := do
  if ← hasItem first then pure (some (← value)) else pure none

/-- A profile as a list of its parts. -/
def profileList : ReadM Profile := do
  skip
  let description ← listPart true (stringNamed "a string")
  let id ← listPart false identifier
  match id with
  | none =>
    failBehind ']' (.other "invalid length 1, expected struct Profile with 3 elements")
  | some id =>
    let items ← listPart false items
    closing ']' .endInList
    pure ⟨description.getD "", id, items.getD []⟩

/-- A profile. -/
def profile : ReadM Profile := do
  if isByte (← skipBlanks) '[' then profileList else profileObject

/-- Every profile of a file. -/
def profiles : ReadM (List (String × Profile)) := do
  let found ← object "a map" [] fun found name => do
    colon
    let p ← profile
    pure (Association.insert name p found)
  objectEnd
  pure found

/-- Read the text of a file; a blank one has no profiles. -/
def ofText (text : String) : Except Fault (List (String × Profile)) :=
  if (Text.trim text).isEmpty then .ok [] else run profiles text

/-- Open the file of profiles; a missing one is like an empty one. -/
def load (path : String) (files : Files) (nextId : Nat) : Except Fault Profiles :=
  let text : Except Fault String :=
    if files.hasPath path then (files.read path).mapError Profiles.fileFault else .ok ""
  match text.bind ofText with
  | .error f => .error f
  | .ok found =>
    .ok (Profiles.ensureActive { path := some path, profiles := found, nextId := nextId })

end StackScript.ProfileReader
