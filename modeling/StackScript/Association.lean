/-!
# Associations

Lists of keys with values, in the order in which the keys were first inserted. Fields of structs,
entries of maps and bindings of scopes are kept this way, so that every order a program can see
is the order of the list.

Main statements: `find?_insert_self` and `find?_insert_of_ne` (what an association says after a change),
`keys_insert_of_has` (overwriting keeps the order).
-/
namespace StackScript.Association

variable {α β : Type} [BEq α]

/-- Overwrite the value of a key in place, or add the key at the end. -/
def insert (key : α) (value : β) : List (α × β) → List (α × β)
  | [] => [(key, value)]
  | (k, v) :: rest =>
    if k == key then (k, value) :: rest else (k, v) :: insert key value rest

/-- Remove a key, the others keep their order. -/
def erase (key : α) : List (α × β) → List (α × β)
  | [] => []
  | (k, v) :: rest => if k == key then rest else (k, v) :: erase key rest

/-- The value of a key. -/
def find? (key : α) : List (α × β) → Option β
  | [] => none
  | (k, v) :: rest => if k == key then some v else find? key rest

/-- Change the value of a key that is present. -/
def adjust (key : α) (f : β → β) : List (α × β) → List (α × β)
  | [] => []
  | (k, v) :: rest => if k == key then (k, f v) :: rest else (k, v) :: adjust key f rest

/-- Whether a key is present. -/
def has (key : α) (entries : List (α × β)) : Bool := entries.any fun e => e.1 == key

/-- The keys in order. -/
def keys (entries : List (α × β)) : List α := entries.map Prod.fst

/-- The entries of a list, later ones overwriting earlier ones of the same key. -/
def ofList (entries : List (α × β)) : List (α × β) :=
  entries.foldl (fun acc e => insert e.1 e.2 acc) []

variable [LawfulBEq α]

theorem find?_insert_self (key : α) (value : β) (entries : List (α × β)) :
    find? key (insert key value entries) = some value := by
  induction entries with
  | nil => simp [insert, find?]
  | cons e rest ih =>
    obtain ⟨k, v⟩ := e
    by_cases h : k = key <;> simp [insert, find?, h, ih]

theorem find?_insert_of_ne {key other : α} (h : other ≠ key) (value : β)
    (entries : List (α × β)) :
    find? other (insert key value entries) = find? other entries := by
  have absent : (key == other) = false := beq_false_of_ne (Ne.symm h)
  induction entries with
  | nil => simp [insert, find?, absent]
  | cons e rest ih =>
    obtain ⟨k, v⟩ := e
    cases hk : k == key with
    | true =>
      have : k = key := eq_of_beq hk
      subst this
      simp [insert, find?, absent]
    | false => simp [insert, find?, hk, ih]

theorem find?_isSome (key : α) (entries : List (α × β)) :
    (find? key entries).isSome = has key entries := by
  induction entries with
  | nil => rfl
  | cons e rest ih =>
    obtain ⟨k, v⟩ := e
    cases hk : k == key <;> simp_all [find?, has]

theorem keys_insert_of_has {key : α} {entries : List (α × β)} (value : β)
    (h : has key entries = true) : keys (insert key value entries) = keys entries := by
  induction entries with
  | nil => simp [has] at h
  | cons e rest ih =>
    obtain ⟨k, v⟩ := e
    cases hk : k == key with
    | true => simp [insert, keys, eq_of_beq hk]
    | false =>
      have := ih (by simpa [has, hk] using h)
      simp_all [insert, keys]

end StackScript.Association
