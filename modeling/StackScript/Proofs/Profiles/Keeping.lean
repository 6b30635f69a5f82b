import StackScript.Proofs.Profiles.Sound

/-!
# Profiles and their file

While nothing changed since the profiles were read or written, their file holds them: it is read as
the same names, keys and values. Every operation keeps this, whatever else it does, and so does every
run of them. A file that could not be written may hold anything; the profiles are changed then, and
stay so until they are written.

Main statements: `Files.read_write`, `Profiles.Kept.step` and `Profiles.kept_in_file`, which follows
by induction on the run.
-/
namespace StackScript

/-! ## Files -/

namespace Files

variable {f g : Files} {path text : String} {names : List String}

/-- Every key stays when one is overwritten or added. -/
theorem mem_insert {entry : List String × String} {texts : List (List String × String)}
    (mem : entry ∈ texts) (names : List String) (text : String) :
    ∃ other, (entry.1, other) ∈ Association.insert names text texts := by
  have key : entry.1 ∈ Association.keys (Association.insert names text texts) := by
    rw [Association.mem_keys]
    by_cases same : entry.1 = names
    · rw [same, Association.find?_insert_self]
      rfl
    · rw [Association.find?_insert_of_ne same, ← Association.mem_keys]
      exact List.mem_map_of_mem mem
  obtain ⟨found, mem, same⟩ := List.mem_map.1 key
  exact ⟨found.2, same ▸ mem⟩

theorem hasDirectory_put (h : f.hasDirectory names = true) (written : List String) (text : String) :
    (f.put written text).hasDirectory names = true := by
  simp only [hasDirectory, put, Bool.or_eq_true, List.any_eq_true] at h ⊢
  refine h.imp_right fun below => ?_
  obtain ⟨entry, mem, inside⟩ := below
  obtain ⟨other, mem⟩ := mem_insert mem written text
  exact ⟨_, mem, inside⟩

/-- Names that were followed are followed when a file is put where there is no directory. -/
theorem follow_put {here target parts : List String} (followed : f.follow here parts = .ok target)
    (free : f.hasDirectory names = false) (text : String) :
    (f.put names text).follow here parts = .ok target := by
  induction parts generalizing here with
  | nil => exact followed
  | cons name rest ih =>
    unfold follow at followed ⊢
    split at followed
    · cases followed
    · next noFile =>
      split at followed
      · cases followed
      · next directory =>
        have directory : f.hasDirectory here = true := by simpa using directory
        have apart : here ≠ names := by
          rintro rfl
          rw [directory] at free
          cases free
        have same : (f.put names text).text? here = f.text? here :=
          Association.find?_insert_of_ne apart _ _
        rw [same, if_neg noFile, hasDirectory_put directory, if_neg (by decide)]
        split at followed
        · cases followed
        · next short =>
          rw [if_neg short]
          exact ih followed

theorem resolve_put (resolved : f.resolve path = .ok names) (free : f.hasDirectory names = false)
    (text : String) : (f.put names text).resolve path = .ok names := by
  unfold resolve at resolved ⊢
  split at resolved
  · cases resolved
  · split at resolved
    · cases resolved
    · next some short =>
      rw [if_neg some, if_neg short]
      exact follow_put resolved free text

/-- Where a file can be written: a place on its path that is no directory. -/
theorem of_writable (place : f.writable path = .ok names) :
    f.resolve path = .ok names ∧ f.hasDirectory names = false ∧ wantsDirectory path = false := by
  unfold writable at place
  split at place
  · cases place
  · split at place
    · cases place
    · next free =>
      split at place
      · cases place
      · split at place
        · cases place
        · split at place
          · cases place
          · next resolved _ _ file =>
            cases place
            exact ⟨resolved, by simpa using free, by simpa using file⟩

/-- What was written is read. -/
theorem read_write (written : f.write path text = .ok g) : g.read path = .ok text := by
  unfold write at written
  cases place : f.writable path with
  | error e =>
    rw [place] at written
    cases written
  | ok names =>
    rw [place] at written
    cases written
    obtain ⟨resolved, free, file⟩ := of_writable place
    have again : (f.put names text).resolve path = .ok names := resolve_put resolved free text
    have found : (f.put names text).text? names = some text := text?_put f names text
    show (f.put names text).read path = .ok text
    rw [read, again]
    simp [found, file]

theorem hasPath_of_read (read : f.read path = .ok text) : f.hasPath path = true := by
  unfold Files.read at read
  unfold hasPath
  split at read
  · cases read
  · next names resolved =>
    rw [resolved]
    dsimp only
    split at read
    · next here =>
      split at read
      · cases read
      · next file => simp [here, file]
    · split at read <;> cases read

end Files

/-! ## Contents -/

namespace Association

variable {α β : Type} [BEq α] [LawfulBEq α] {entries others : List (α × β)}

/-- The order of entries does not matter where each key stands once. -/
theorem find?_perm (order : entries.Perm others) (distinct : (keys entries).Nodup) (key : α) :
    find? key entries = find? key others := by
  induction order with
  | nil => rfl
  | cons e _ ih => simp only [find?, ih (List.nodup_cons.1 distinct).2]
  | swap e f rest =>
    have apart : f.1 ≠ e.1 := fun same => (List.nodup_cons.1 distinct).1 (by simp [same])
    simp only [find?]
    split
    · next first =>
      rw [if_neg fun second => apart ((eq_of_beq first).trans (eq_of_beq second).symm)]
    · rfl
  | trans first _ ih ih' => exact (ih distinct).trans (ih' ((first.map Prod.fst).nodup_iff.1 distinct))

omit [LawfulBEq α] in
theorem erase_of_not_has {key : α} (absent : has key entries = false) : erase key entries = entries := by
  induction entries with
  | nil => rfl
  | cons e rest ih =>
    simp only [has, List.any_cons, Bool.or_eq_false_iff] at absent
    simp [erase, absent.1, ih absent.2]

omit [LawfulBEq α] in
theorem adjust_of_fixed {key : α} {f : β → β} (fixed : ∀ v ∈ find? key entries, f v = v) :
    adjust key f entries = entries := by
  induction entries with
  | nil => rfl
  | cons e rest ih =>
    unfold adjust
    split
    · next here => rw [fixed e.2 (by simp [find?, here])]
    · next there => rw [ih fun v mem => fixed v (by simpa [find?, there] using mem)]

omit [LawfulBEq α] in
theorem find?_map {γ : Type} (f : β → γ) (key : α) (entries : List (α × β)) :
    find? key (entries.map fun e => (e.1, f e.2)) = (find? key entries).map f := by
  induction entries with
  | nil => rfl
  | cons e rest ih =>
    simp only [List.map_cons, find?, ih]
    split <;> rfl

end Association

namespace Profiles

variable {p q : Profiles} {name : String}

theorem find?_ascending {α : Type} {entries : List (String × α)}
    (distinct : (Association.keys entries).Nodup) (key : String) :
    Association.find? key (ascending entries) = Association.find? key entries :=
  (Association.find?_perm (List.mergeSort_perm _ _).symm distinct key).symm

theorem find?_contents {profiles : List (String × Profile)} (sound : Sound profiles)
    (name : String) : Association.find? name (contents profiles) =
      (Association.find? name profiles).map orderly := by
  rw [contents, Association.find?_map, find?_ascending sound.names]

/-- The items of a profile once it is made active: none if it was missing. -/
theorem items_activate (p : Profiles) (name : String) : (p.activate name).items =
    ((Association.find? name p.profiles).map Profile.items).getD [] := by
  have active : (p.activate name).active = name := active_ensureActive _
  rw [items, active, activate, ensureActive]
  split
  · rfl
  · next missing =>
    have none : Association.find? name p.profiles = none := by
      rw [← Association.find?_isSome] at missing
      simpa using missing
    rw [Association.find?_insert_self, none]
    rfl

theorem nodup_items_activate (sound : Sound p.profiles) (name : String) :
    (Association.keys (p.activate name).items).Nodup := by
  rw [items_activate]
  cases found : Association.find? name p.profiles with
  | none => exact Association.nodup_keys_nil
  | some q => exact (sound.each (name, q) (Association.mem_of_find? found)).keys

/-- The answers about every profile and key are the same. -/
structure Alike (p q : Profiles) : Prop where
  names : p.names = q.names
  get? : ∀ name key, (p.activate name).get? key = (q.activate name).get? key
  has : ∀ name key, (p.activate name).has key = (q.activate name).has key
  keys : ∀ name, (p.activate name).keys = (q.activate name).keys

/-- Profiles of the same contents answer alike. -/
theorem Alike.of_contents (sound : Sound p.profiles) (sound' : Sound q.profiles)
    (same : contents p.profiles = contents q.profiles) : p.Alike q := by
  have ordered (name : String) :
      ascending (p.activate name).items = ascending (q.activate name).items := by
    have found := find?_contents sound name
    rw [same, find?_contents sound' name] at found
    rw [items_activate, items_activate]
    cases here : Association.find? name p.profiles with
    | none =>
      rw [here] at found
      rw [Option.map_eq_none_iff.1 found]
    | some a =>
      rw [here] at found
      obtain ⟨b, there, alike⟩ := Option.map_eq_some_iff.1 found
      rw [there]
      exact (congrArg Profile.items alike).symm
  have found (name key : String) : (p.activate name).get? key = (q.activate name).get? key := by
    rw [Profiles.get?, Profiles.get?, ← find?_ascending (nodup_items_activate sound name),
      ← find?_ascending (nodup_items_activate sound' name), ordered]
  refine ⟨?_, found, fun name key => ?_, fun name => ?_⟩
  · have keys (profiles : List (String × Profile)) :
        Association.keys (contents profiles) = Association.keys (ascending profiles) := by
      simp [contents, Association.keys]
    rw [Profiles.names, Profiles.names, ← keys, ← keys, same]
  · rw [Profiles.has, Profiles.has, ← Association.find?_isSome, ← Association.find?_isSome]
    exact congrArg Option.isSome (found name key)
  · rw [Profiles.keys, Profiles.keys, ordered]

/-! ## Operations -/

/-- What is done with profiles. -/
inductive Operation where
  | activate (name : String)
  | set (key value : String)
  | delete (key : String)
  | save

/-- One operation on the profiles and on the files. -/
inductive Step : Operation → Profiles × Files → Profiles × Files → Prop
  | activate {p : Profiles} {f : Files} (name : String) :
      Step (.activate name) (p, f) (p.activate name, f)
  | set {p : Profiles} {f : Files} (key value : String) :
      Step (.set key value) (p, f) (p.set key value, f)
  | delete {p : Profiles} {f : Files} (key : String) :
      Step (.delete key) (p, f) (p.delete key, f)
  | saved {p q : Profiles} {f g : Files} (done : p.save f = .ok (q, g)) : Step .save (p, f) (q, g)
  /-- What a failed attempt leaves of the files is not known. -/
  | failed {p : Profiles} {f g : Files} {e : Fault} (failure : p.save f = .error e) :
      Step .save (p, f) (p, g)

/-- Operations one after the other. -/
inductive Run : List Operation → Profiles × Files → Profiles × Files → Prop
  | nil (now : Profiles × Files) : Run [] now now
  | cons {o : Operation} {rest : List Operation} {now next last : Profiles × Files}
      (step : Step o now next) (later : Run rest next last) : Run (o :: rest) now last

/-- The profiles are sound, with the one that is active at first among them, and unless they were
changed their file holds them. -/
structure Kept (path : String) (p : Profiles) (f : Files) : Prop where
  there : p.path = some path
  sound : Sound p.profiles
  first : Association.has defaultName p.profiles = true
  file : p.isDirty = false → ∃ text found, f.read path = .ok text ∧
    ProfileReader.ofText text = .ok found ∧ contents found = contents p.profiles

variable {path : String} {f g : Files}

theorem ensureActive_of_clean (clean : p.ensureActive.isDirty = false) : p.ensureActive = p := by
  unfold ensureActive at clean ⊢
  split
  · rfl
  · next missing => simp [missing] at clean

theorem path_ensureActive (p : Profiles) : p.ensureActive.path = p.path := by
  unfold ensureActive
  split <;> rfl

theorem has_ensureActive (h : Association.has name p.profiles = true) :
    Association.has name p.ensureActive.profiles = true := by
  unfold ensureActive
  split
  · exact h
  · rw [← Association.find?_isSome] at h ⊢
    by_cases same : name = p.active
    · rw [same, Association.find?_insert_self]
      rfl
    · rwa [Association.find?_insert_of_ne same]

theorem has_changeItems (h : Association.has name p.profiles = true)
    (change : List (String × String) → List (String × String)) :
    Association.has name (p.changeItems change).profiles = true := by
  rw [← Association.find?_isSome, ← Association.mem_keys] at h ⊢
  rwa [changeItems, Association.keys_adjust]

/-- A key that was not there is not removed. -/
theorem delete_of_clean (key : String) (clean : (p.delete key).isDirty = false) :
    (p.delete key).profiles = p.profiles ∧ p.isDirty = false := by
  obtain ⟨settled, absent⟩ := Bool.or_eq_false_iff.1
    (show (p.ensureActive.isDirty || p.ensureActive.has key) = false from clean)
  have same := ensureActive_of_clean settled
  rw [same] at settled absent
  refine ⟨?_, settled⟩
  show (p.ensureActive.changeItems (Association.erase key)).profiles = p.profiles
  rw [same]
  refine Association.adjust_of_fixed fun q found => ?_
  have items : p.items = q.items := by simp [Profiles.items, Option.mem_def.1 found]
  rw [Association.erase_of_not_has (items ▸ absent)]

/-- What a successful attempt to write did. -/
theorem save_cases (there : p.path = some path) (done : p.save f = .ok (q, g)) :
    (p.isDirty = false ∧ q = p ∧ g = f) ∨
      (p.isDirty = true ∧ q = { p with isDirty := false } ∧ g.read path = .ok p.fileText) := by
  unfold save at done
  rw [there] at done
  dsimp only at done
  split at done
  · next clean =>
    cases done
    exact .inl ⟨by simpa using clean, rfl, rfl⟩
  · next changed =>
    refine .inr ⟨by simpa using changed, ?_⟩
    split at done
    · next written =>
      cases done
      cases made : f.makeDirectories ((FilePath.parent? path).getD "") with
      | error e =>
        rw [made] at written
        cases written
      | ok h =>
        rw [made] at written
        exact ⟨by rw [there], Files.read_write written⟩
    · cases done

/-- Changed profiles are written where their file can be. -/
theorem save_of_writable {names : List String} (there : p.path = some path)
    (changed : p.isDirty = true)
    (made : f.makeDirectories ((FilePath.parent? path).getD "") = .ok g)
    (place : g.writable path = .ok names) :
    p.save f = .ok ({ p with isDirty := false }, g.put names p.fileText) := by
  have written : (f.makeDirectories ((FilePath.parent? path).getD "")).bind
      (fun h => h.write path p.fileText) = .ok (g.put names p.fileText) := by
    rw [made]
    show g.write path p.fileText = _
    rw [Files.write, place]
    rfl
  simp only [save, there, changed, written]
  rfl

/-- Writing changes neither the profiles nor which of them is active. -/
theorem profiles_of_save (done : p.save f = .ok (q, g)) :
    q.profiles = p.profiles ∧ q.active = p.active := by
  unfold save at done
  split at done
  · cases done
    exact ⟨rfl, rfl⟩
  · split at done
    · cases done
      exact ⟨rfl, rfl⟩
    · split at done
      · cases done
        exact ⟨rfl, rfl⟩
      · cases done

/-- Only changed profiles are written, so that only these can fail to be. -/
theorem isDirty_of_failure {e : Fault} (failure : p.save f = .error e) : p.isDirty = true := by
  unfold save at failure
  split at failure
  · cases failure
  · split at failure
    · cases failure
    · next changed => simpa using changed

/-- Every operation keeps the profiles and their file together. -/
theorem Kept.step {o : Operation} {now next : Profiles × Files} (step : Step o now next)
    (kept : Kept path now.1 now.2) : Kept path next.1 next.2 := by
  cases step with
  | @activate p f name =>
    refine ⟨(path_ensureActive _).trans kept.there, kept.sound.activate name,
      has_ensureActive (p := { p with active := name }) kept.first, fun clean => ?_⟩
    have same : p.activate name = { p with active := name } := ensureActive_of_clean clean
    rw [same] at clean ⊢
    exact kept.file clean
  | @set p f key value =>
    exact ⟨(path_ensureActive p).trans kept.there, kept.sound.set key value,
      has_changeItems (has_ensureActive kept.first) _, fun clean => by cases clean⟩
  | @delete p f key =>
    refine ⟨(path_ensureActive p).trans kept.there, kept.sound.delete key,
      has_changeItems (has_ensureActive kept.first) _, fun clean => ?_⟩
    obtain ⟨same, settled⟩ := delete_of_clean key clean
    rw [same]
    exact kept.file settled
  | saved done =>
    obtain ⟨-, rfl, rfl⟩ | ⟨-, rfl, read⟩ := save_cases kept.there done
    · exact kept
    · exact ⟨kept.there, kept.sound, kept.first, fun _ =>
        ⟨_, _, read, ProfileReader.ofText_fileText kept.sound, contents_contents _⟩⟩
  | failed failure =>
    refine ⟨kept.there, kept.sound, kept.first, fun clean => ?_⟩
    rw [isDirty_of_failure failure] at clean
    cases clean

theorem Kept.run {operations : List Operation} {now last : Profiles × Files}
    (run : Run operations now last) (kept : Kept path now.1 now.2) : Kept path last.1 last.2 := by
  induction run with
  | nil => exact kept
  | cons step _ ih => exact ih (kept.step step)

/-- A missing file is like an empty one. -/
theorem load_of_missing (missing : f.hasPath path = false) (nextId : Nat) :
    ProfileReader.load path f nextId =
      .ok (ensureActive { path := some path, profiles := [], nextId := nextId }) := by
  have blank : (Text.trim "").isEmpty = true := by decide +kernel
  have none : (Except.ok "" : Except Fault String).bind ProfileReader.ofText = .ok [] := by
    show ProfileReader.ofText "" = _
    rw [ProfileReader.ofText, if_pos blank]
  simp only [ProfileReader.load, missing, Bool.false_eq_true, if_false, none]

/-- A file that is there is read. -/
theorem load_of_read {text : String} (read : f.read path = .ok text) (nextId : Nat) :
    ProfileReader.load path f nextId = (ProfileReader.ofText text).map fun found =>
      ensureActive { path := some path, profiles := found, nextId := nextId } := by
  have opened : (if f.hasPath path then (f.read path).mapError fileFault else .ok "") =
      Except.ok text := by
    rw [if_pos (Files.hasPath_of_read read), read]
    rfl
  have parsed : (Except.ok text : Except Fault String).bind ProfileReader.ofText =
      ProfileReader.ofText text := rfl
  simp only [ProfileReader.load, opened, parsed]
  cases ProfileReader.ofText text <;> rfl

/-- What opening a file comes to: its text, if there is one, is read. -/
theorem load_cases {nextId : Nat} (loaded : ProfileReader.load path f nextId = .ok p) :
    ∃ found, p = ensureActive { path := some path, profiles := found, nextId := nextId } ∧
      Sound found ∧
      ((∃ text, f.read path = .ok text ∧ ProfileReader.ofText text = .ok found) ∨ found = []) := by
  by_cases here : f.hasPath path = true
  · cases read : f.read path with
    | error e =>
      unfold ProfileReader.load at loaded
      rw [if_pos here, read] at loaded
      cases loaded
    | ok text =>
      rw [load_of_read read] at loaded
      cases parsed : ProfileReader.ofText text with
      | error e =>
        rw [parsed] at loaded
        cases loaded
      | ok found =>
        rw [parsed] at loaded
        cases loaded
        exact ⟨found, rfl, ProfileReader.sound_of_ofText parsed, .inl ⟨text, rfl, parsed⟩⟩
  · rw [load_of_missing (by simpa using here)] at loaded
    cases loaded
    exact ⟨[], rfl, sound_nil, .inr rfl⟩

theorem kept_of_load {nextId : Nat} (loaded : ProfileReader.load path f nextId = .ok p) :
    Kept path p f := by
  obtain ⟨found, rfl, sound, source⟩ := load_cases loaded
  refine ⟨path_ensureActive _, Sound.ensureActive sound, ?_, fun clean => ?_⟩
  · rw [← Association.find?_isSome]
    exact find?_ensureActive_isSome { path := some path, profiles := found, nextId := nextId }
  · rw [ensureActive_of_clean clean]
    rcases source with ⟨text, read, parsed⟩ | rfl
    · exact ⟨text, found, read, parsed, rfl⟩
    · cases clean

/-- Profiles that are kept answer as before when their file is opened again. -/
theorem Kept.load (kept : Kept path p f) (clean : p.isDirty = false) (nextId : Nat) :
    ∃ again, ProfileReader.load path f nextId = .ok again ∧ again.Alike p := by
  obtain ⟨text, found, read, parsed, same⟩ := kept.file clean
  have sound := ProfileReader.sound_of_ofText parsed
  have first : Association.has defaultName found = true := by
    have there := find?_contents kept.sound defaultName
    rw [← same, find?_contents sound] at there
    have first := kept.first
    rw [← Association.find?_isSome] at first ⊢
    simpa using (congrArg Option.isSome there).trans (by simpa using first)
  refine ⟨{ path := some path, profiles := found, nextId := nextId }, ?_,
    Alike.of_contents sound kept.sound same⟩
  rw [load_of_read read, parsed]
  exact congrArg Except.ok (if_pos first)

/-- An operation leaves the profiles alone that are active neither before nor after it. -/
theorem Step.find?_eq {o : Operation} {now next : Profiles × Files} (step : Step o now next)
    (passive : name ≠ now.1.active) (never : o ≠ .activate name) :
    name ≠ next.1.active ∧
      Association.find? name next.1.profiles = Association.find? name now.1.profiles := by
  cases step with
  | @activate p f other =>
    have apart : name ≠ other := fun same => never (same ▸ rfl)
    have active : (p.activate other).active = other := active_ensureActive _
    exact ⟨fun same => apart (same.trans active), find?_activate_of_ne apart⟩
  | @set p f key value =>
    have active : (p.set key value).active = p.active := active_ensureActive p
    exact ⟨fun same => passive (same.trans active), find?_set_of_ne passive key value⟩
  | @delete p f key =>
    have active : (p.delete key).active = p.active := active_ensureActive p
    exact ⟨fun same => passive (same.trans active), find?_delete_of_ne passive key⟩
  | saved done =>
    obtain ⟨profiles, active⟩ := profiles_of_save done
    exact ⟨fun same => passive (same.trans active), by rw [profiles]⟩
  | failed _ => exact ⟨passive, rfl⟩

/-- A run leaves the profiles alone that it does not make active. -/
theorem Run.find?_eq {operations : List Operation} {now last : Profiles × Files}
    (run : Run operations now last) (passive : name ≠ now.1.active)
    (never : .activate name ∉ operations) :
    Association.find? name last.1.profiles = Association.find? name now.1.profiles := by
  induction run with
  | nil => rfl
  | cons step _ ih =>
    obtain ⟨here, there⟩ := List.ne_and_not_mem_of_not_mem_cons never
    obtain ⟨passive, same⟩ := step.find?_eq passive here.symm
    exact (ih passive there).trans same

/-- From a file that was opened, whether it was there or not, and after any operations: while
nothing is left to be written, the file is read as what the profiles hold; once they were written,
opening the file again gives profiles that answer alike; and later operations leave those profiles
as they are that they do not make active. -/
theorem kept_in_file {nextId : Nat} {before p : Profiles} {f₀ f : Files}
    {operations : List Operation} (loaded : ProfileReader.load path f₀ nextId = .ok before)
    (run : Run operations (before, f₀) (p, f)) :
    (p.isDirty = false → ∃ text found, f.read path = .ok text ∧
      ProfileReader.ofText text = .ok found ∧ contents found = contents p.profiles) ∧
    (∀ saved g, p.save f = .ok (saved, g) → saved.isDirty = false ∧
      ∀ id, ∃ again, ProfileReader.load path g id = .ok again ∧ again.Alike saved) ∧
    ∀ later q g, Run later (p, f) (q, g) → ∀ name, name ≠ p.active →
      .activate name ∉ later →
      Association.find? name q.profiles = Association.find? name p.profiles := by
  have kept : Kept path p f := (kept_of_load loaded).run run
  refine ⟨kept.file, fun saved g done => ?_, fun later q g run name passive never =>
    run.find?_eq passive never⟩
  have after : Kept path saved g := kept.step (.saved done)
  have clean : saved.isDirty = false := by
    obtain ⟨clean, rfl, -⟩ | ⟨-, rfl, -⟩ := save_cases kept.there done
    · exact clean
    · rfl
  exact ⟨clean, after.load clean⟩

theorem parts_empty : FilePath.parts "" = [] := by
  have last : String.Pos.Raw.atEnd "" 0 := by decide +kernel
  rw [FilePath.parts, String.splitOn, if_neg (by decide), String.splitOnAux, if_pos last]
  decide +kernel

/-- A name alone is a path of one part. -/
theorem parts_name : FilePath.parts "p" = ["p"] := by
  have first : ¬ String.Pos.Raw.atEnd "p" 0 := by decide +kernel
  have other : ¬ (String.Pos.Raw.get "p" 0 == String.Pos.Raw.get "/" 0) = true := by decide +kernel
  have last : String.Pos.Raw.atEnd "p" ((String.Pos.Raw.unoffsetBy 0 0).next "p") := by decide +kernel
  rw [FilePath.parts, String.splitOn, if_neg (by decide), String.splitOnAux, if_neg first,
    if_neg other, String.splitOnAux, if_pos last]
  decide +kernel

/-- A value that was set and written in a file that was missing comes back. -/
theorem color_comes_back : ∃ before p f,
    ProfileReader.load "p" {} 1 = .ok before ∧
    Run [.set "color" "blue", .save] (before, {}) (p, f) ∧ p.isDirty = false ∧
    (∃ text found, f.read "p" = .ok text ∧ ProfileReader.ofText text = .ok found ∧
      contents found = contents p.profiles) ∧
    (∃ again, ProfileReader.load "p" f 1 = .ok again ∧
      (again.activate "default").get? "color" = some "blue") ∧
    Association.find? "work" (p.delete "color").profiles =
      Association.find? "work" p.profiles := by
  have missing : Files.hasPath {} "p" = false := by
    rw [Files.hasPath, Files.resolve, parts_name]
    decide +kernel
  have above : (FilePath.parent? "p").getD "" = "" := by
    rw [FilePath.parent?, parts_name]
    decide +kernel
  have relative : FilePath.isAbsolute "" = false := by decide +kernel
  have made : Files.makeDirectories {} ((FilePath.parent? "p").getD "") =
      .ok { directories := [[]] } := by
    rw [above, Files.makeDirectories, parts_empty, relative]
    rfl
  have place : Files.writable { directories := [[]] } "p" = .ok ["p"] := by
    rw [Files.writable, Files.resolve, parts_name]
    decide +kernel
  have loaded := load_of_missing missing 1
  have saved {p : Profiles} (there : p.path = some "p") :=
    save_of_writable (p := p.set "color" "blue") ((path_ensureActive p).trans there) rfl made place
  have run : Run [.set "color" "blue", .save]
      (ensureActive { path := some "p", profiles := [], nextId := 1 }, {}) _ :=
    .cons (.set "color" "blue") <| .cons (.saved (saved rfl)) (.nil _)
  obtain ⟨file, again, others⟩ := kept_in_file loaded run
  obtain ⟨-, opens⟩ := again _ _ rfl
  obtain ⟨opened, there, alike⟩ := opens 1
  refine ⟨_, _, _, loaded, run, rfl, file rfl, ⟨opened, there, ?_⟩, ?_⟩
  · exact (alike.get? "default" "color").trans (by decide)
  · exact others _ _ _ (.cons (.delete "color") (.nil _)) "work" (by decide) (by simp)

end Profiles

end StackScript
