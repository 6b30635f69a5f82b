import StackScript.Association
import StackScript.Files
import StackScript.Json
import StackScript.Profile.Identifier
import StackScript.Fault

/-!
# Profiles

Named sets of settings, one of them active, that are kept in a file. The file is written again
only when something changed since it was read or last written. Names and keys are listed in
ascending order.

Main statements: `get?_set` (a stored item is read back) and `isDirty_set`.
-/
namespace StackScript

/-- A named set of settings. -/
structure Profile where
  description : String
  id : Identifier
  items : List (String × String) := []

/-- Profiles with the file they belong to. -/
structure Profiles where
  /-- The file; without one the profiles are never written. -/
  path : Option String := none
  profiles : List (String × Profile) := []
  /-- The name of the active profile. -/
  active : String := "default"
  isDirty : Bool := false
  /-- The number that the next identifier is made from. -/
  nextId : Nat := 1

namespace Profiles

/-- The name of the profile that is active at first. -/
def defaultName : String := "default"

/-- Add the active profile if it is missing. -/
def ensureActive (p : Profiles) : Profiles :=
  if Association.has p.active p.profiles then p
  else
    let added : Profile := { description := p.active ++ " profile", id := .ofNat p.nextId }
    { p with
      profiles := Association.insert p.active added p.profiles
      nextId := p.nextId + 1
      isDirty := true }

/-- Profiles that are not kept in a file. -/
def inMemory : Profiles := ensureActive {}

/-- Make a profile the active one. -/
def activate (p : Profiles) (name : String) : Profiles := ensureActive { p with active := name }

/-- The items of the active profile. -/
def items (p : Profiles) : List (String × String) :=
  ((Association.find? p.active p.profiles).map Profile.items).getD []

/-- The value of a key in the active profile. -/
def get? (p : Profiles) (key : String) : Option String := Association.find? key p.items

/-- Whether the active profile has a key. -/
def has (p : Profiles) (key : String) : Bool := Association.has key p.items

/-- Names in ascending order. -/
def ascending {α : Type} (entries : List (String × α)) : List (String × α) :=
  entries.mergeSort fun a b => !(b.1 < a.1)

/-- The keys of the active profile. -/
def keys (p : Profiles) : List String := Association.keys (ascending p.items)

/-- The names of all profiles. -/
def names (p : Profiles) : List String := Association.keys (ascending p.profiles)

/-- Change the items of the active profile. -/
def changeItems (p : Profiles) (f : List (String × String) → List (String × String)) : Profiles :=
  { p with profiles := Association.adjust p.active (fun q => { q with items := f q.items }) p.profiles }

/-- Store a value under a key of the active profile. -/
def set (p : Profiles) (key value : String) : Profiles :=
  { p.ensureActive.changeItems (Association.insert key value) with isDirty := true }

/-- Remove a key of the active profile. -/
def delete (p : Profiles) (key : String) : Profiles :=
  let q := p.ensureActive
  { q.changeItems (Association.erase key) with isDirty := q.isDirty || q.has key }

/-- A profile as it is written. -/
def profileJson (p : Profile) : JsonValue :=
  .object
    [("description", .string p.description), ("id", .string p.id.text),
     ("items", .object ((ascending p.items).map fun (k, v) => (k, .string v)))]

/-- The text of the file. -/
def fileText (p : Profiles) : String :=
  (JsonValue.object ((ascending p.profiles).map fun (n, q) => (n, profileJson q))).prettyText

/-- The fault of a file that cannot be used. -/
def fileFault (e : FileFault) : Fault := .about .io e.text

/-- Write the file if anything changed. -/
def save (p : Profiles) (files : Files) : Except Fault (Profiles × Files) :=
  let clean := { p with isDirty := false }
  match p.path with
  | none => .ok (clean, files)
  | some path =>
    if !p.isDirty then .ok (p, files)
    else
      match (files.makeDirectories ((FilePath.parent? path).getD "")).bind
          fun files => files.write path p.fileText with
      | .ok files => .ok (clean, files)
      | .error e => .error (fileFault e)

theorem find?_adjust {β : Type} (key : String) (f : β → β) (entries : List (String × β)) :
    Association.find? key (Association.adjust key f entries) =
      (Association.find? key entries).map f := by
  induction entries with
  | nil => rfl
  | cons e rest ih =>
    obtain ⟨k, v⟩ := e
    by_cases h : k = key <;> simp [Association.adjust, Association.find?, h, ih]

theorem active_ensureActive (p : Profiles) : p.ensureActive.active = p.active := by
  unfold ensureActive; split <;> rfl

theorem find?_ensureActive_isSome (p : Profiles) :
    (Association.find? p.active p.ensureActive.profiles).isSome = true := by
  unfold ensureActive
  split
  · next h => rw [Association.find?_isSome]; exact h
  · simp [Association.find?_insert_self]

theorem get?_set (p : Profiles) (key value : String) : (p.set key value).get? key = some value := by
  have h := find?_ensureActive_isSome p
  rw [Option.isSome_iff_exists] at h
  obtain ⟨q, hq⟩ := h
  simp [get?, items, set, changeItems, active_ensureActive, find?_adjust, hq,
    Association.find?_insert_self]

theorem isDirty_set (p : Profiles) (key value : String) : (p.set key value).isDirty = true := rfl

end Profiles

end StackScript
