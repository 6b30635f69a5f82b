import StackScript.Proofs.Profiles.Reading
import StackScript.Proofs.Scopes

/-!
# Profiles stay sound

Every set of profiles that was read from a file, and every one that the operations make of it, has
each name and each key once and identifiers in lower case, so that it is read back after it was
written. None of the operations touches a profile that is not the active one.

Main statements: `ProfileReader.sound_of_ofText` and `Profiles.Sound.set`, `delete` and `activate`.
-/
namespace StackScript

/-! ## Associations -/

namespace Association

variable {α β : Type} [BEq α] {key : α} {value : β} {entries : List (α × β)} {e : α × β}

omit [BEq α] in
theorem nodup_keys_nil : (keys ([] : List (α × β))).Nodup := List.nodup_nil

theorem value_of_mem_insert (mem : e ∈ insert key value entries) :
    e.2 = value ∨ e ∈ entries := by
  induction entries with
  | nil => exact .inl (by rw [List.mem_singleton.1 mem])
  | cons first rest ih =>
    unfold insert at mem
    split at mem
    · rcases List.mem_cons.1 mem with rfl | mem
      · exact .inl rfl
      · exact .inr (List.mem_cons_of_mem _ mem)
    · rcases List.mem_cons.1 mem with rfl | mem
      · exact .inr List.mem_cons_self
      · exact (ih mem).imp id (List.mem_cons_of_mem _)

theorem keys_adjust (key : α) (f : β → β) (entries : List (α × β)) :
    keys (adjust key f entries) = keys entries := by
  induction entries with
  | nil => rfl
  | cons first rest ih =>
    unfold adjust
    split
    · rfl
    · exact congrArg (first.1 :: ·) ih

theorem value_of_mem_adjust {f : β → β} (mem : e ∈ adjust key f entries) :
    e ∈ entries ∨ ∃ before ∈ entries, e.2 = f before.2 := by
  induction entries with
  | nil => cases mem
  | cons first rest ih =>
    unfold adjust at mem
    split at mem
    · rcases List.mem_cons.1 mem with rfl | mem
      · exact .inr ⟨first, List.mem_cons_self, rfl⟩
      · exact .inl (List.mem_cons_of_mem _ mem)
    · rcases List.mem_cons.1 mem with rfl | mem
      · exact .inl List.mem_cons_self
      · rcases ih mem with mem | ⟨before, mem, same⟩
        · exact .inl (List.mem_cons_of_mem _ mem)
        · exact .inr ⟨before, List.mem_cons_of_mem _ mem, same⟩

theorem find?_adjust_of_ne [LawfulBEq α] {other : α} (apart : other ≠ key) (f : β → β)
    (entries : List (α × β)) : find? other (adjust key f entries) = find? other entries := by
  induction entries with
  | nil => rfl
  | cons first rest ih =>
    cases here : first.1 == key
    · simp [adjust, find?, here, ih]
    · have differs : (first.1 == other) = false := by
        rw [eq_of_beq here]
        exact beq_false_of_ne apart.symm
      simp [adjust, find?, here, differs]

end Association

/-! ## Changes -/

namespace Profiles

variable {profiles : List (String × Profile)} {p : Profiles}

theorem sound_nil : Sound [] := ⟨List.nodup_nil, fun _ mem => by cases mem⟩

theorem Sound.insert (sound : Sound profiles) {q : Profile} (h : q.Sound) (name : String) :
    Sound (Association.insert name q profiles) :=
  ⟨Association.nodup_keys_insert q sound.names, fun e mem =>
    (Association.value_of_mem_insert mem).elim (fun same => same ▸ h) (sound.each e)⟩

theorem Sound.ensureActive (sound : Sound p.profiles) : Sound p.ensureActive.profiles := by
  unfold Profiles.ensureActive
  split
  · exact sound
  · exact sound.insert ⟨Association.nodup_keys_nil, Identifier.written_ofNat _⟩ _

theorem Sound.activate (sound : Sound p.profiles) (name : String) :
    Sound (p.activate name).profiles :=
  Sound.ensureActive (p := { p with active := name }) sound

/-- A change of the active items that keeps each key there once. -/
theorem Sound.changeItems {f : List (String × String) → List (String × String)}
    (sound : Sound p.profiles)
    (keeps : ∀ items, (Association.keys items).Nodup → (Association.keys (f items)).Nodup) :
    Sound (p.changeItems f).profiles := by
  refine ⟨?_, fun e mem => ?_⟩
  · rw [Profiles.changeItems, Association.keys_adjust]
    exact sound.names
  · rcases Association.value_of_mem_adjust mem with mem | ⟨before, mem, same⟩
    · exact sound.each e mem
    · rw [same]
      exact ⟨keeps _ (sound.each before mem).keys, (sound.each before mem).id⟩

theorem Sound.set (sound : Sound p.profiles) (key value : String) :
    Sound (p.set key value).profiles :=
  sound.ensureActive.changeItems fun _ => Association.nodup_keys_insert value

theorem Sound.delete (sound : Sound p.profiles) (key : String) : Sound (p.delete key).profiles :=
  sound.ensureActive.changeItems fun items distinct => by
    rw [Association.keys_erase]
    exact distinct.erase key

/-! ### What does not change -/

variable {name : String}

theorem find?_ensureActive_of_ne (apart : name ≠ p.active) :
    Association.find? name p.ensureActive.profiles = Association.find? name p.profiles := by
  unfold ensureActive
  split
  · rfl
  · exact Association.find?_insert_of_ne apart _ _

theorem find?_activate_of_ne {other : String} (apart : name ≠ other) :
    Association.find? name (p.activate other).profiles = Association.find? name p.profiles :=
  find?_ensureActive_of_ne (p := { p with active := other }) apart

theorem find?_changeItems_of_ne (apart : name ≠ p.active)
    (f : List (String × String) → List (String × String)) :
    Association.find? name (p.changeItems f).profiles = Association.find? name p.profiles :=
  Association.find?_adjust_of_ne apart _ _

theorem find?_set_of_ne (apart : name ≠ p.active) (key value : String) :
    Association.find? name (p.set key value).profiles = Association.find? name p.profiles :=
  (find?_changeItems_of_ne (active_ensureActive p ▸ apart) _).trans (find?_ensureActive_of_ne apart)

theorem find?_delete_of_ne (apart : name ≠ p.active) (key : String) :
    Association.find? name (p.delete key).profiles = Association.find? name p.profiles :=
  (find?_changeItems_of_ne (active_ensureActive p ▸ apart) _).trans (find?_ensureActive_of_ne apart)

end Profiles

/-! ## What a reader gives -/

namespace JsonReader

variable {α β σ : Type} {P : β → Prop} {Q : α → Prop}

/-- Whatever a reader gives has a property. -/
def Gives (P : α → Prop) (m : ReadM α) : Prop := ∀ r a r', m r = (.ok a, r') → P a

theorem Gives.pure {b : β} (h : P b) : Gives P (Pure.pure b) := by
  rintro r a r' read
  cases read
  exact h

theorem Gives.bind {m : ReadM α} {f : α → ReadM β} (first : Gives Q m)
    (second : ∀ a, Q a → Gives P (f a)) : Gives P (m >>= f) := by
  intro r b r' read
  change StateT.bind m (ExceptT.bindCont f) r = _ at read
  rw [StateT.bind] at read
  cases run : m r with
  | mk result r₁ =>
    rw [run] at read
    cases result with
    | ok a => exact second a (first r a r₁ run) r₁ b r' read
    | error e => cases read

/-- What comes first does not matter. -/
theorem Gives.behind {m : ReadM α} {f : α → ReadM β} (second : ∀ a, Gives P (f a)) :
    Gives P (m >>= f) :=
  Gives.bind (Q := fun _ => True) (fun _ _ _ _ => trivial) fun a _ => second a

theorem Gives.failHere (p : Problem) : Gives P (failHere p) := by
  rintro r a r' read
  cases read

theorem Gives.failPeek (p : Problem) : Gives P (failPeek p) := by
  rintro r a r' read
  cases read

/-- What holds of a state, or of the result, after a turn. -/
def Turn.Holds (Q : σ → Prop) (P : β → Prop) : Turn σ β → Prop
  | .again state => Q state
  | .done result => P result

/-- A loop keeps what each of its turns keeps. -/
theorem Gives.repeatTurns {turn : σ → ReadM (Turn σ β)} {Q : σ → Prop}
    (keeps : ∀ state, Q state → Gives (Turn.Holds Q P) (turn state)) {start : σ} (h : Q start) :
    Gives P (repeatTurns start turn) := by
  refine .behind fun r => ?_
  generalize r.rest.length + 2 = bound
  induction bound generalizing start with
  | zero => exact .failHere _
  | succ bound ih =>
    refine (keeps start h).bind fun result holds => ?_
    cases result with
    | again state => exact ih holds
    | done result => exact .pure holds

end JsonReader

namespace ProfileReader

open JsonReader Profiles

variable {α σ : Type} {P : α → Prop}

theorem gives_refuse (b : UInt8) (expected : String) : Gives P (refuse b expected) := by
  unfold refuse
  split
  · exact .failHere _
  · split
    · exact .failHere _
    · exact .behind fun _ => .failHere _

theorem gives_object {Q : σ → Prop} {start : σ} {member : σ → String → ReadM σ} (first : Q start)
    (keeps : ∀ state name, Q state → Gives Q (member state name)) (expected : String) :
    Gives Q (object expected start member) := by
  rw [object_eq]
  refine .behind fun b => ?_
  cases b with
  | none => exact .failPeek _
  | some b =>
    dsimp only
    split
    · exact gives_refuse b expected
    · refine .behind fun _ => Gives.bind (Q := fun now => Q now.2) ?_ fun _ h => .pure h
      refine Gives.repeatTurns (Q := fun now : Bool × σ => Q now.2) (fun now h => ?_) first
      refine .behind fun more => ?_
      split
      · exact .behind fun name => (keeps _ name h).bind fun _ h => .pure h
      · exact .pure h

theorem gives_items : Gives (fun entries => (Association.keys entries).Nodup) items :=
  (gives_object (Q := fun entries => (Association.keys entries).Nodup) Association.nodup_keys_nil
    (fun _ _ distinct => .behind fun _ => .behind fun v =>
      .pure (Association.nodup_keys_insert v distinct)) _).bind
    fun _ h => .behind fun _ => .pure h

theorem gives_identifier : Gives Identifier.Written identifier := by
  refine .behind fun text => ?_
  cases read : Identifier.read text with
  | ok i => exact .pure (Identifier.written_of_read read)
  | error p => exact .failHere _

/-- The parts that were read so far are sound. -/
def Gathered.Sound (p : Gathered) : Prop :=
  (∀ entries ∈ p.items, (Association.keys entries).Nodup) ∧ ∀ i ∈ p.id, i.Written

theorem gives_failBehind (c : Char) (p : Problem) : Gives P (failBehind c p) :=
  .behind fun _ => .failHere _

theorem gives_once {name : String} {before : Option α} {value : ReadM α} (given : Gives P value) :
    Gives (fun v => ∀ a ∈ v, P a) (once name before value) := by
  unfold once
  split
  · exact gives_failBehind _ _
  · refine .behind fun _ => given.bind fun a h => .pure ?_
    rintro _ ⟨⟩
    exact h

theorem gives_profileMember (p : Gathered) (name : String) (h : p.Sound) :
    Gives Gathered.Sound (profileMember p name) := by
  unfold profileMember
  split
  · exact .behind fun _ => .pure h
  · exact (gives_once gives_identifier).bind fun _ written => .pure ⟨h.1, written⟩
  · exact (gives_once gives_items).bind fun _ distinct => .pure ⟨distinct, h.2⟩
  · exact .behind fun _ => .behind fun _ => .pure h

theorem gives_listPart {value : ReadM α} (given : Gives P value) (first : Bool) :
    Gives (fun v => ∀ a ∈ v, P a) (listPart first value) := by
  refine .behind fun more => ?_
  split
  · refine given.bind fun a h => .pure ?_
    rintro _ ⟨⟩
    exact h
  · exact .pure (by simp)

theorem nodup_keys_getD {entries : Option (List (String × String))}
    (distinct : ∀ found ∈ entries, (Association.keys found).Nodup) :
    (Association.keys (entries.getD [])).Nodup := by
  cases entries with
  | none => exact Association.nodup_keys_nil
  | some found => exact distinct found rfl

theorem Gathered.Sound.profile {p : Gathered} (h : p.Sound) {profile : Profile}
    (there : p.profile? = some profile) : profile.Sound := by
  obtain ⟨id, found, rfl⟩ := Option.map_eq_some_iff.1 there
  exact ⟨nodup_keys_getD h.1, h.2 id found⟩

theorem gives_profileList : Gives Profile.Sound profileList := by
  refine .behind fun _ => .behind fun description =>
    (gives_listPart gives_identifier false).bind fun id written => ?_
  cases id with
  | none => exact gives_failBehind _ _
  | some id =>
    exact (gives_listPart gives_items false).bind fun entries distinct => .behind fun _ =>
      .pure ⟨nodup_keys_getD distinct, written id rfl⟩

theorem gives_profileObject : Gives Profile.Sound profileObject := by
  refine (gives_object (Q := Gathered.Sound) ⟨by simp, by simp⟩ gives_profileMember _).bind
    fun p h => ?_
  split
  · next profile there => exact .behind fun _ => .pure (h.profile there)
  · exact gives_failBehind _ _

theorem gives_profile : Gives Profile.Sound profile := by
  refine .behind fun b => ?_
  split
  · exact gives_profileList
  · exact gives_profileObject

theorem gives_profiles : Gives Sound profiles :=
  (gives_object (Q := Sound) sound_nil (fun _ name sound => .behind fun _ =>
    gives_profile.bind fun _ h => .pure (sound.insert h name)) _).bind
    fun _ h => .behind fun _ => .pure h

/-- Whatever is read from a text is sound. -/
theorem sound_of_ofText {text : String} {found : List (String × Profile)}
    (read : ofText text = .ok found) : Sound found := by
  unfold ofText at read
  split at read
  · cases read
    exact sound_nil
  · unfold JsonReader.run at read
    split at read
    · next v r run =>
      cases read
      have whole : Gives Sound (whole profiles) := gives_profiles.bind fun found sound =>
        .behind fun b => by
          cases b with
          | none => exact .pure sound
          | some b => exact .failPeek _
      exact whole _ _ _ run
    · cases read

end ProfileReader

end StackScript
