import Mathlib.Data.List.TakeWhile
import StackScript.Profile.Read
import StackScript.Proofs.Documents
import StackScript.Proofs.Profiles.Texts

/-!
# The file of profiles is read back

A file of profiles is an object of objects over several lines. Its reader passes over the blanks
between them, takes each member by its name, and comes to the profiles that were written, their
names and keys in ascending order.

Main statements: `ProfileReader.object_reads` (by induction on the members) and
`ProfileReader.ofText_fileText`.
-/
namespace StackScript

open String (utf8EncodeChar)
open Text (bytes bytes_append bytes_ofList)

/-! ## Ascending order -/

/-- Each key stands once, and the identifier is in lower case. -/
structure Profile.Sound (p : Profile) : Prop where
  keys : (Association.keys p.items).Nodup
  id : p.id.Written

namespace Profiles

variable {α : Type}

theorem keys_ascending (entries : List (String × α)) :
    (Association.keys (ascending entries)).Perm (Association.keys entries) :=
  (List.mergeSort_perm _ _).map Prod.fst

theorem ascending_ascending (entries : List (String × α)) :
    ascending (ascending entries) = ascending entries := by
  refine List.mergeSort_of_pairwise (List.pairwise_mergeSort (fun a b c => ?_) (fun a b => ?_) _)
  · simpa only [Bool.not_eq_true', decide_eq_false_iff_not, String.not_lt] using String.le_trans
  · simpa only [Bool.or_eq_true, Bool.not_eq_true', decide_eq_false_iff_not, String.not_lt]
      using String.le_total a.1 b.1

/-- The order looks at the keys alone. -/
theorem ascending_map {β : Type} (f : α → β) (entries : List (String × α)) :
    ascending (entries.map fun e => (e.1, f e.2)) = (ascending entries).map fun e => (e.1, f e.2) :=
  (List.map_mergeSort (f := fun e : String × α => (e.1, f e.2)) fun _ _ _ _ => rfl).symm

/-- A profile whose items are in ascending order. -/
def orderly (p : Profile) : Profile := { p with items := ascending p.items }

theorem orderly_orderly (p : Profile) : orderly (orderly p) = orderly p := by
  rw [orderly, orderly, ascending_ascending]

/-- The profiles and their items in ascending order: what does not depend on the order in which
they were added. -/
def contents (profiles : List (String × Profile)) : List (String × Profile) :=
  (ascending profiles).map fun e => (e.1, orderly e.2)

theorem contents_contents (profiles : List (String × Profile)) :
    contents (contents profiles) = contents profiles := by
  simp only [contents, ascending_map, ascending_ascending, List.map_map, Function.comp_def,
    orderly_orderly]

/-- Each name stands once, and the profiles are sound. -/
structure Sound (profiles : List (String × Profile)) : Prop where
  names : (Association.keys profiles).Nodup
  each : ∀ e ∈ profiles, e.2.Sound

end Profiles

/-! ## Blanks, quotes and colons -/

namespace JsonReader

variable {ahead behind rest : List UInt8}

/-- A byte that is passed over between the parts of a value. -/
def Blank (b : UInt8) : Prop := b = 0x20 ∨ b = 0x0A ∨ b = 0x09 ∨ b = 0x0D

instance : DecidablePred Blank := fun _ => inferInstanceAs (Decidable (_ ∨ _))

/-- One turn of passing over blanks. -/
def blankTurn : Unit → ReadM (Turn Unit (Option UInt8)) := fun _ => do
  match ← peek with
  | some b =>
    if b == 0x20 || b == 0x0A || b == 0x09 || b == 0x0D then
      skip
      pure (.again ())
    else pure (.done (some b))
  | none => pure (.done none)

theorem skipBlanks_eq : skipBlanks = repeatTurns () blankTurn := rfl

theorem blankTurn_blank {b : UInt8} (blank : Blank b) :
    Reads (blankTurn ()) (b :: rest) rest (.again ()) := by
  have passed : (b == 0x20 || b == 0x0A || b == 0x09 || b == 0x0D) = true := by
    simpa [Blank, or_assoc] using blank
  refine peek_reads.bind ?_
  simp only [List.head?_cons, passed, if_true]
  exact (skip_reads b).bind (Reads.pure _)

theorem skipBlanks_reads {blanks : List UInt8} {b : UInt8} (blank : ∀ x ∈ blanks, Blank x)
    (stop : ¬ Blank b) : Reads skipBlanks (blanks ++ b :: rest) (b :: rest) (some b) := by
  rw [skipBlanks_eq]
  refine Ends.reads ?_
  induction blanks with
  | nil =>
    have kept : (b == 0x20 || b == 0x0A || b == 0x09 || b == 0x0D) = false := by
      simpa [Blank, and_assoc] using stop
    refine .done (peek_reads.bind ?_)
    simp only [List.nil_append, List.head?_cons, kept, Bool.false_eq_true, if_false]
    exact Reads.pure _
  | cons x blanks ih =>
    obtain ⟨here, there⟩ := List.forall_mem_cons.1 blank
    exact .again (blankTurn_blank here) (by simp) (ih there)

/-- Nothing is left. -/
theorem skipBlanks_nil : Reads skipBlanks [] [] none := by
  rw [skipBlanks_eq]
  exact Ends.reads (.done (peek_reads.bind (Reads.pure _)))

/-- A reader that takes a whole text gives its value. -/
theorem run_of_reads {α : Type} {value : ReadM α} {text : String} {v : α}
    (read : Reads value (bytes text) [] v) : run value text = .ok v := by
  have taken : Reads (whole value) (bytes text) [] v :=
    read.bind (skipBlanks_nil.bind (Reads.pure v))
  obtain ⟨line, column, read⟩ := taken 1 0
  have read : (whole value).run.run ⟨bytes text, 1, 0⟩ = (.ok v, ⟨[], line, column⟩) := read
  rw [run, read]

theorem hasMember_end {blanks : List UInt8} (blank : ∀ x ∈ blanks, Blank x) (first : Bool) :
    Reads (hasMember first) (blanks ++ code '\x7d' :: rest) (code '\x7d' :: rest) false :=
  (skipBlanks_reads blank (by decide)).bind (Reads.pure _)

theorem bytes_colon : bytes ": " = [code ':', 0x20] := (bytes_ofList [':', ' ']).trans (by decide)

theorem colon_reads : Reads colon (bytes ": " ++ rest) (0x20 :: rest) () := by
  rw [bytes_colon]
  exact (skipBlanks_reads (List.forall_mem_nil _) (by decide)).bind (skip_reads _)

theorem closing_reads {blanks : List UInt8} (blank : ∀ x ∈ blanks, Blank x) {c : Char}
    (stop : ¬ Blank (code c)) (missing : Problem) :
    Reads (closing c missing) (blanks ++ code c :: rest) rest () := by
  refine (skipBlanks_reads blank stop).bind ?_
  simp only [beq_self_eq_true, if_true]
  exact skip_reads _

theorem bytes_quote (s : String) : bytes (JsonValue.quote s) ++ rest =
    code '"' :: ((s.toList.flatMap JsonValue.escape).flatMap utf8EncodeChar ++ code '"' :: rest) := by
  have mark : utf8EncodeChar '"' = [code '"'] := by decide
  rw [JsonValue.quote, bytes_ofList, List.flatMap_cons, List.flatMap_append, List.flatMap_singleton,
    mark]
  simp

theorem memberName_reads (name : String) :
    Reads memberName (bytes (JsonValue.quote name) ++ rest) rest name := by
  rw [bytes_quote]
  exact (skip_reads _).bind (stringRest_reads name)

theorem hasMember_first {blanks : List UInt8} (blank : ∀ x ∈ blanks, Blank x) (name : String) :
    Reads (hasMember true) (blanks ++ (bytes (JsonValue.quote name) ++ rest))
      (bytes (JsonValue.quote name) ++ rest) true := by
  rw [bytes_quote]
  exact (skipBlanks_reads blank (by decide)).bind (Reads.pure _)

theorem hasMember_next {blanks : List UInt8} (blank : ∀ x ∈ blanks, Blank x) (name : String) :
    Reads (hasMember false) (code ',' :: (blanks ++ (bytes (JsonValue.quote name) ++ rest)))
      (bytes (JsonValue.quote name) ++ rest) true := by
  rw [bytes_quote]
  exact (skipBlanks_reads (List.forall_mem_nil _) (by decide)).bind <| (skip_reads _).bind <|
    (skipBlanks_reads blank (by decide)).bind (Reads.pure _)

end JsonReader

/-! ## Objects -/

namespace ProfileReader

open JsonReader JsonValue Profiles

variable {σ : Type} {member : σ → String → ReadM σ} {depth : Nat} {rest blanks : List UInt8}

/-- What stands before a part of an object and before its closing brace. -/
def gap (depth : Nat) : List UInt8 := bytes (Style.newline ⟨true, depth⟩)

theorem blank_gap (depth : Nat) : ∀ b ∈ gap depth, Blank b := by
  have feed : bytes "\n" = [0x0A] := (bytes_ofList ['\n']).trans (by decide)
  have space : utf8EncodeChar ' ' = [0x20] := by decide
  intro b mem
  rw [gap, Style.newline, if_pos rfl, bytes_append, feed, bytes_ofList] at mem
  rcases List.mem_append.1 mem with first | later
  · exact .inr (.inl (List.mem_singleton.1 first))
  · obtain ⟨c, repeated, mem⟩ := List.mem_flatMap.1 later
    rw [(List.mem_replicate.1 repeated).2, space] at mem
    exact .inl (List.mem_singleton.1 mem)

theorem bytes_join (separator first : String) (others : List String) :
    bytes (Text.join separator (first :: others)) =
      bytes first ++ others.flatMap fun t => bytes separator ++ bytes t := by
  induction others generalizing first with
  | nil => simp [Text.join]
  | cons second others ih => simp [Text.join, bytes_append, ih]

/-- Members, written one after the other, take a state to another one. -/
inductive MembersRead (member : σ → String → ReadM σ) (depth : Nat) :
    σ → List (String × JsonValue) → σ → Prop
  | nil (state : σ) : MembersRead member depth state [] state
  | cons {state next last : σ} {name : String} {item : JsonValue}
      {members : List (String × JsonValue)}
      (here : ∀ rest, Reads (member state name)
        (bytes ": " ++ (bytes (textIn ⟨true, depth⟩ item) ++ rest)) rest next)
      (later : MembersRead member depth next members last) :
      MembersRead member depth state ((name, item) :: members) last

/-- One turn of reading an object. -/
def memberTurn (member : σ → String → ReadM σ) (now : Bool × σ) :
    ReadM (Turn (Bool × σ) (Bool × σ)) := do
  if ← hasMember now.1 then
    let name ← memberName
    pure (.again (false, ← member now.2 name))
  else pure (.done now)

theorem object_eq (expected : String) (start : σ) : object expected start member = (do
    match ← skipBlanks with
    | none => failPeek .endInValue
    | some b =>
      if b != code '\x7b' then refuse b expected
      else
        skip
        let read ← repeatTurns (true, start) (memberTurn member)
        pure read.2) := rfl

/-- The bytes of a member. -/
theorem bytes_member (name : String) (item : JsonValue) :
    bytes ((⟨true, depth⟩ : Style).label name ++ textIn ⟨true, depth⟩ item) ++ rest =
      bytes (quote name) ++ (bytes ": " ++ (bytes (textIn ⟨true, depth⟩ item) ++ rest)) := by
  simp [Style.label, bytes_append]

theorem memberTurn_reads {first : Bool} {state next : σ} {name : String} {item : JsonValue}
    {ahead : List UInt8}
    (more : Reads (hasMember first) ahead
      (bytes (quote name) ++ (bytes ": " ++ (bytes (textIn ⟨true, depth⟩ item) ++ rest))) true)
    (here : ∀ rest, Reads (member state name)
      (bytes ": " ++ (bytes (textIn ⟨true, depth⟩ item) ++ rest)) rest next) :
    Reads (memberTurn member (first, state)) ahead rest (.again (false, next)) :=
  more.bind <| (memberName_reads name).bind <| (here rest).bind (Reads.pure _)

/-- The members behind the first one. -/
theorem MembersRead.ends {state last : σ} {members : List (String × JsonValue)}
    (h : MembersRead member depth state members last) (outer : Nat) :
    Ends (memberTurn member) (false, state)
      ((memberTextsIn ⟨true, depth⟩ members).flatMap
        (fun t => code ',' :: (gap depth ++ bytes t)) ++ (gap outer ++ code '\x7d' :: rest))
      (code '\x7d' :: rest) (false, last) := by
  induction h with
  | nil state =>
    exact .done ((hasMember_end (blank_gap outer) false).bind (Reads.pure _))
  | @cons state next last name item members here later ih =>
    rw [memberTextsIn, List.flatMap_cons, List.append_assoc, List.cons_append, List.append_assoc,
      bytes_member]
    exact .again (memberTurn_reads (hasMember_next (blank_gap depth) name) here)
      (by simp only [List.length_cons, List.length_append]; omega) ih

/-- An object is read to its closing brace. -/
theorem object_reads {start last : σ} {members : List (String × JsonValue)} (rest : List UInt8)
    (h : MembersRead member (depth + 1) start members last) (expected : String)
    (blank : ∀ b ∈ blanks, Blank b) :
    Reads (object expected start member)
      (blanks ++ (bytes (textIn ⟨true, depth⟩ (.object members)) ++ rest))
      (code '\x7d' :: rest) last := by
  have opening : bytes "\x7b" = [code '\x7b'] := (bytes_ofList ['\x7b']).trans (by decide)
  have final : bytes "\x7d" = [code '\x7d'] := (bytes_ofList ['\x7d']).trans (by decide)
  have enter {inner : List UInt8} {first : Bool}
      (ends : Ends (memberTurn member) (true, start) inner (code '\x7d' :: rest) (first, last)) :
      Reads (object expected start member) (blanks ++ code '\x7b' :: inner) (code '\x7d' :: rest)
        last := by
    rw [object_eq]
    exact (skipBlanks_reads blank (by decide)).bind <| (skip_reads _).bind <|
      ends.reads.bind (Reads.pure _)
  cases h with
  | nil =>
    have written : bytes (textIn ⟨true, depth⟩ (.object [])) ++ rest =
        code '\x7b' :: ([] ++ code '\x7d' :: rest) := by
      have text : textIn ⟨true, depth⟩ (.object []) = "\x7b" ++ "\x7d" := by
        simp [textIn, memberTextsIn, Style.enclose]
      rw [text, bytes_append, opening, final]
      rfl
    rw [written]
    exact enter (.done ((hasMember_end (List.forall_mem_nil _) true).bind (Reads.pure _)))
  | @cons _ next _ name item members here later =>
    have comma : bytes "," = [code ','] := (bytes_ofList [',']).trans (by decide)
    have text : textIn ⟨true, depth⟩ (.object ((name, item) :: members)) =
        "\x7b" ++ (⟨true, depth + 1⟩ : Style).newline ++
          Text.join ("," ++ (⟨true, depth + 1⟩ : Style).newline)
            (memberTextsIn ⟨true, depth + 1⟩ ((name, item) :: members)) ++
          (⟨true, depth⟩ : Style).newline ++ "\x7d" := by
      simp [textIn, memberTextsIn, Style.enclose, Style.deeper]
    have written : bytes (textIn ⟨true, depth⟩ (.object ((name, item) :: members))) ++ rest =
        code '\x7b' :: (gap (depth + 1) ++ (bytes (quote name) ++ (bytes ": " ++
          (bytes (textIn ⟨true, depth + 1⟩ item) ++
            ((memberTextsIn ⟨true, depth + 1⟩ members).flatMap
              (fun t => code ',' :: (gap (depth + 1) ++ bytes t)) ++
              (gap depth ++ code '\x7d' :: rest)))))) := by
      rw [text, memberTextsIn, bytes_append, bytes_append, bytes_append, bytes_append, bytes_join,
        bytes_append "," _, comma, opening, final, ← bytes_member]
      simp [gap]
    rw [written]
    exact enter (.again (memberTurn_reads (hasMember_first (blank_gap _) name) here)
      (by simp only [bytes_colon, List.length_append, List.length_cons]; omega) (later.ends depth))

/-! ## Profiles -/

theorem stringNamed_reads (expected s : String) (blank : ∀ b ∈ blanks, Blank b) :
    Reads (stringNamed expected)
      (blanks ++ (bytes (textIn ⟨true, depth⟩ (.string s)) ++ rest)) rest s := by
  have text : textIn ⟨true, depth⟩ (.string s) = quote s := by simp [textIn, leafText]
  rw [text, bytes_quote]
  exact (skipBlanks_reads blank (by decide)).bind <| (skip_reads _).bind (stringRest_reads s)

theorem blank_space : ∀ b ∈ [(0x20 : UInt8)], Blank b := List.forall_mem_singleton.2 (.inl rfl)

/-- Members whose values are read one after the other and inserted under their names. -/
theorem membersRead_insert {α β : Type} {value : ReadM β} (write : α → JsonValue) (back : α → β)
    (depth : Nat) (found : List (String × β)) (entries : List (String × α))
    (reads : ∀ name v, (name, v) ∈ entries → ∀ rest, Reads value
      ([0x20] ++ (bytes (textIn ⟨true, depth⟩ (write v)) ++ rest)) rest (back v)) :
    MembersRead (fun found name => do
        colon
        let v ← value
        pure (Association.insert name v found)) depth found
      (entries.map fun e => (e.1, write e.2))
      ((entries.map fun e => (e.1, back e.2)).foldl
        (fun acc e => Association.insert e.1 e.2 acc) found) := by
  induction entries generalizing found with
  | nil => exact .nil found
  | cons e entries ih =>
    exact .cons (fun rest => colon_reads.bind <|
      (reads e.1 e.2 List.mem_cons_self rest).bind (Reads.pure _))
      (ih _ fun name v mem => reads name v (List.mem_cons_of_mem e mem))

theorem items_reads {entries : List (String × String)} (distinct : (Association.keys entries).Nodup)
    (blank : ∀ b ∈ blanks, Blank b) :
    Reads items (blanks ++ (bytes (textIn ⟨true, depth⟩
      (.object (entries.map fun (k, v) => (k, .string v)))) ++ rest)) rest entries := by
  have members := membersRead_insert .string id (depth + 1) [] entries
    fun _ v _ _ => stringNamed_reads "a string" v blank_space
  have all : (entries.map fun e => (e.1, id e.2)).foldl
      (fun acc e => Association.insert e.1 e.2 acc) [] = entries := by
    simp only [id, List.map_id']
    exact JsonFn.foldl_insert distinct
  rw [all] at members
  exact (object_reads _ members "a map" blank).bind <|
    (closing_reads (List.forall_mem_nil _) (by decide) _).bind (Reads.pure _)

theorem identifier_reads {i : Identifier} (written : i.Written) (blank : ∀ b ∈ blanks, Blank b) :
    Reads identifier (blanks ++ (bytes (textIn ⟨true, depth⟩ (.string i.text)) ++ rest)) rest i := by
  refine (stringNamed_reads "a UUID string" i.text blank).bind ?_
  rw [Identifier.read_text written]
  exact Reads.pure i

theorem once_reads {α : Type} {value : ReadM α} {ahead : List UInt8} {v : α} (name : String)
    (read : Reads value ([0x20] ++ ahead) rest v) :
    Reads (once name none value) (bytes ": " ++ ahead) rest (some v) :=
  colon_reads.bind <| read.bind (Reads.pure _)

theorem profileMembers {p : Profile} (depth : Nat) (sound : p.Sound) :
    MembersRead profileMember depth {} [("description", .string p.description),
      ("id", .string p.id.text),
      ("items", .object ((ascending p.items).map fun (k, v) => (k, .string v)))]
      ⟨some p.description, some p.id, some (ascending p.items)⟩ := by
  have sorted := (keys_ascending p.items).nodup_iff.2 sound.keys
  have description (rest : List UInt8) : Reads (profileMember {} "description")
      (bytes ": " ++ (bytes (textIn ⟨true, depth⟩ (.string p.description)) ++ rest)) rest
      { description := some p.description } :=
    (once_reads "description" (stringNamed_reads "a string" _ blank_space)).bind (Reads.pure _)
  have id (rest : List UInt8) : Reads (profileMember { description := some p.description } "id")
      (bytes ": " ++ (bytes (textIn ⟨true, depth⟩ (.string p.id.text)) ++ rest)) rest
      { description := some p.description, id := some p.id } :=
    (once_reads "id" (identifier_reads sound.id blank_space)).bind (Reads.pure _)
  exact .cons description <| .cons id <| .cons (fun rest =>
    (once_reads "items" (items_reads sorted blank_space)).bind (Reads.pure _)) (.nil _)

/-- An object starts with its brace. -/
theorem object_starts (s : Style) (members : List (String × JsonValue)) :
    ∃ inner, textIn s (.object members) = "\x7b" ++ inner := by
  rw [textIn, Style.enclose]
  split
  · exact ⟨_, rfl⟩
  · exact ⟨_, by simp only [String.append_assoc]; rfl⟩

theorem profile_reads {p : Profile} (sound : p.Sound) (blank : ∀ b ∈ blanks, Blank b) :
    Reads profile (blanks ++ (bytes (textIn ⟨true, depth⟩ (profileJson p)) ++ rest)) rest
      (orderly p) := by
  obtain ⟨inner, starts⟩ := object_starts ⟨true, depth⟩
    [("description", .string p.description), ("id", .string p.id.text),
      ("items", .object ((ascending p.items).map fun (k, v) => (k, .string v)))]
  have read := object_reads rest (profileMembers (depth + 1) sound) "struct Profile"
    (List.forall_mem_nil _)
  have opening : bytes "\x7b" = [code '\x7b'] := (bytes_ofList ['\x7b']).trans (by decide)
  rw [profileJson]
  rw [starts, bytes_append, opening] at read ⊢
  refine (skipBlanks_reads blank (by decide)).bind ?_
  exact read.bind <| (closing_reads (List.forall_mem_nil _) (by decide) _).bind (Reads.pure _)

/-- The text of a file of profiles. -/
theorem profiles_reads {found : List (String × Profile)} (sound : Sound found) :
    Reads profiles (bytes (textIn ⟨true, depth⟩
      (.object ((ascending found).map fun (n, q) => (n, profileJson q)))) ++ rest) rest
      (contents found) := by
  have sorted : (Association.keys (contents found)).Nodup := by
    rw [contents, Association.keys, List.map_map]
    exact (keys_ascending found).nodup_iff.2 sound.names
  have members := membersRead_insert profileJson orderly (depth + 1) [] (ascending found)
    fun _ _ mem _ => profile_reads (sound.each _ (List.mem_mergeSort.1 mem)) blank_space
  have all : (contents found).foldl (fun acc e => Association.insert e.1 e.2 acc) [] =
      contents found := JsonFn.foldl_insert sorted
  rw [← contents, all] at members
  exact (object_reads _ members "a map" (List.forall_mem_nil _)).bind <|
    (closing_reads (List.forall_mem_nil _) (by decide) _).bind (Reads.pure _)

/-- A text that starts with a brace is not blank. -/
theorem trim_ne_empty (inner : String) : (Text.trim ("\x7b" ++ inner)).isEmpty = false := by
  have brace : Text.isBlank '\x7b' = false := by decide
  have chars : ("\x7b" ++ inner).toList = '\x7b' :: inner.toList := by simp
  have some : ('\x7b' :: inner.toList).reverse.dropWhile Text.isBlank ≠ [] := fun none =>
    absurd (List.dropWhile_eq_nil_iff.1 none '\x7b' (by simp)) (by rw [brace]; decide)
  rw [Text.trim, chars, List.dropWhile_cons_of_neg (by rw [brace]; decide)]
  simpa using some

/-- The file that is written is read back as the profiles in ascending order. -/
theorem ofText_fileText {p : Profiles} (sound : Sound p.profiles) :
    ofText p.fileText = .ok (contents p.profiles) := by
  obtain ⟨inner, starts⟩ := object_starts ⟨true, 0⟩
    ((ascending p.profiles).map fun (n, q) => (n, profileJson q))
  have text : p.fileText = "\x7b" ++ inner := starts
  have read : Reads profiles (bytes p.fileText ++ []) [] (contents p.profiles) :=
    profiles_reads sound
  rw [List.append_nil] at read
  rw [ofText, if_neg (by rw [text, trim_ne_empty]; decide)]
  exact run_of_reads read

end ProfileReader

end StackScript
