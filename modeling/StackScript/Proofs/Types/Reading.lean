import StackScript.Proofs.Compiling.Emission
import StackScript.Proofs.Types.Spelling

/-!
# Types read back

The text of a type that is built from the builtin types is read as this type, to its end, by any
compiler that keeps names as they are: what is declared under the name of a builtin type makes no
difference.

Main statement: `display_parses`. It follows from `typeTo_of`, by induction on the type, with one
rule for each way in which a type starts.
-/
namespace StackScript.Ty

open CompileM (bind_of_ok current_of skip_of expect_of accept_of accept_other typeWith typeTo)

variable {c c' : Compiler} {a b d t : Token} {ts us : List Token} {type : CompileM Ty} {e : Ty}
  {name : String}

theorem is_word (t : Token) (text : String) :
    t.is text = ((t.word.1 == .punctuation || t.word.1 == .reserved) && t.word.2 == text) := rfl

theorem is_keyword {text : String} (h : t.word = keyword text) : t.is text := by
  simp [is_word, h, keyword]

theorem spell_of (kept : c.normalize = false) : CompileM.spell t c = (.ok t.spelling, c) := by
  have eq : CompileM.spell t c =
      (.ok (if c.normalize then Text.toLower t.spelling else t.spelling), c) := rfl
  rw [eq, kept]
  rfl

/-! ## Types by their first words -/

theorem typeWith_array (ahead : c.Ahead (a :: b :: ts)) (first : a.word = mark "[")
    (second : b.word = mark "]") (element : type (c.emitted 2 []) = (.ok e, c')) :
    typeWith type c = (.ok (.array e), c') := by
  refine (bind_of_ok (current_of ahead)).trans ?_
  rw [if_pos (Token.is_of_word first)]
  refine (bind_of_ok (skip_of ahead)).trans ?_
  refine (bind_of_ok (expect_of (ahead.tail []) (Token.is_of_word second))).trans ?_
  exact bind_of_ok element

theorem typeWith_pointer (ahead : c.Ahead (a :: ts)) (first : a.word = mark "*")
    (target : type (c.emitted 1 []) = (.ok e, c')) : typeWith type c = (.ok (.pointer e), c') := by
  refine (bind_of_ok (current_of ahead)).trans ?_
  rw [if_neg (by simp [is_word, first, mark]), if_pos (Token.is_of_word first)]
  exact (bind_of_ok (skip_of ahead)).trans (bind_of_ok target)

theorem typeWith_channel (ahead : c.Ahead (a :: ts)) (first : a.word = keyword "chan")
    (element : type (c.emitted 1 []) = (.ok e, c')) : typeWith type c = (.ok (.channel e), c') := by
  refine (bind_of_ok (current_of ahead)).trans ?_
  rw [if_neg (by simp [is_word, first, keyword]), if_neg (by simp [is_word, first, keyword]),
    if_neg (by simp [is_word, first, keyword]), if_pos (is_keyword first)]
  exact (bind_of_ok (skip_of ahead)).trans (bind_of_ok element)

theorem typeWith_map {k v : Ty} {n : Nat} (ahead : c.Ahead (a :: b :: ts))
    (first : a.word = keyword "map") (second : b.word = mark "[")
    (key : type (c.emitted 2 []) = (.ok k, c.emitted n []))
    (behind : (c.emitted n []).Ahead (d :: us)) (closing : d.word = mark "]")
    (value : type (c.emitted (n + 1) []) = (.ok v, c')) :
    typeWith type c = (.ok (.map k v), c') := by
  refine (bind_of_ok (current_of ahead)).trans ?_
  rw [if_neg (by simp [is_word, first, keyword]), if_neg (by simp [is_word, first, keyword]),
    if_pos (is_keyword first)]
  refine (bind_of_ok (skip_of ahead)).trans ?_
  refine (bind_of_ok (expect_of (ahead.tail []) (Token.is_of_word second))).trans ?_
  refine (bind_of_ok key).trans ?_
  refine (bind_of_ok (expect_of behind (Token.is_of_word closing))).trans ?_
  exact bind_of_ok value

theorem typeWith_interface (ahead : c.Ahead (a :: b :: d :: ts))
    (first : a.word = keyword "interface") (second : b.word = mark "\x7b")
    (third : d.word = mark "\x7d") : typeWith type c = (.ok interface, c.emitted 3 []) := by
  refine (bind_of_ok (current_of ahead)).trans ?_
  rw [if_neg (by simp [is_word, first, keyword]), if_neg (by simp [is_word, first, keyword]),
    if_neg (by simp [is_word, first, keyword]), if_neg (by simp [is_word, first, keyword]),
    if_pos (is_keyword first)]
  refine (bind_of_ok (skip_of ahead)).trans ?_
  refine (bind_of_ok (expect_of (ahead.tail []) (Token.is_of_word second))).trans ?_
  exact bind_of_ok (expect_of ((ahead.tail []).tail []) (Token.is_of_word third))

theorem typeWith_struct {fields : List (String × Ty)} (ahead : c.Ahead (a :: ts))
    (first : a.word = keyword "struct")
    (inside : CompileM.structFields type (c.emitted 1 []) = (.ok fields, c')) :
    typeWith type c = (.ok (.struct fields), c') := by
  refine (bind_of_ok (current_of ahead)).trans ?_
  rw [if_neg (by simp [is_word, first, keyword]), if_neg (by simp [is_word, first, keyword]),
    if_neg (by simp [is_word, first, keyword]), if_neg (by simp [is_word, first, keyword]),
    if_neg (by simp [is_word, first, keyword]), if_pos (is_keyword first)]
  exact (bind_of_ok (skip_of ahead)).trans (bind_of_ok inside)

theorem typeWith_name (ahead : c.Ahead (a :: ts)) (kept : c.normalize = false)
    (first : a.word = (.identifier, name)) :
    typeWith type c = CompileM.namedType name (c.emitted 1 []) := by
  obtain ⟨tag, rfl⟩ := Prod.mk.inj first
  refine (bind_of_ok (current_of ahead)).trans ?_
  rw [if_neg (by simp [is_word, first]), if_neg (by simp [is_word, first]),
    if_neg (by simp [is_word, first]), if_neg (by simp [is_word, first]),
    if_neg (by simp [is_word, first]), if_neg (by simp [is_word, first]),
    if_neg (by simp [is_word, first]), if_neg (by simp [Token.isIdentifier, tag])]
  exact (bind_of_ok (spell_of kept)).trans (bind_of_ok (skip_of ahead))

/-! ## Names of types -/

theorem isNext_eq (c : Compiler) (text : String) :
    CompileM.isNext text c = (.ok (c.cursor.isNext text), c) := rfl

/-- The name of a builtin type is not looked up among the declared ones. -/
theorem namedType_builtin (known : ofName? name = some e) (noPackage : name ≠ "sync") :
    CompileM.namedType name c = (.ok e, c) := by
  refine (bind_of_ok (isNext_eq c ".")).trans ?_
  rw [if_neg (by simp [noPackage]), known]
  rfl

theorem namedType_sync {k : Kind} (ahead : c.Ahead (a :: b :: ts)) (point : a.word = mark ".")
    (known : b.spelling = "WaitGroup" ∧ k = .waitGroup ∨ b.spelling = "Mutex" ∧ k = .mutex) :
    CompileM.namedType "sync" c = (.ok (.plain k), c.emitted 2 []) := by
  have behind := ahead.tail []
  have read : CompileM.next (c.emitted 1 []) = (.ok b, c.emitted 2 []) :=
    (bind_of_ok (current_of behind)).trans (bind_of_ok (skip_of behind))
  refine (bind_of_ok (isNext_eq c ".")).trans ?_
  rw [if_pos ⟨rfl, by rw [ahead.isNext]; exact Token.is_of_word point⟩]
  refine (bind_of_ok (skip_of ahead)).trans ((bind_of_ok read).trans ?_)
  obtain ⟨spelling, rfl⟩ | ⟨spelling, rfl⟩ := known <;>
  · rw [spelling]
    rfl

/-! ## Fields -/

theorem nameList_one (ahead : c.Ahead (a :: b :: ts)) (kept : c.normalize = false)
    (named : a.word = (.identifier, name)) (alone : b.is "," = false) :
    CompileM.nameList c = (.ok [name], c.emitted 1 []) := by
  obtain ⟨tag, rfl⟩ := Prod.mk.inj named
  have read : CompileM.identifier c = (.ok a.spelling, c.emitted 1 []) := by
    refine (bind_of_ok (current_of ahead)).trans ?_
    rw [tag]
    exact (bind_of_ok (skip_of ahead)).trans (spell_of kept)
  have last : (c.emitted 1 []).cursor.isNext "," = false := by rw [(ahead.tail []).isNext, alone]
  refine (bind_of_ok read).trans ?_
  rw [CompileM.repeatTurns_eq]
  exact CompileM.turns_done (bind_of_ok (accept_other last)) _

/-- One turn of the reading of fields. -/
def fieldTurn (type : CompileM Ty) (fields : List (String × Ty)) :
    CompileM (CompileM.Turn (List (String × Ty)) (List (String × Ty))) := do
  if ← CompileM.accept "\x7d" then pure (.done fields)
  else if ← CompileM.accept ";" then pure (.again fields)
  else
    if ← CompileM.atEnd then CompileM.fail (.missing "\x7d")
    let names ← CompileM.nameList
    let t ← type
    pure (.again (← CompileM.addFields t names fields))

theorem structFields_eq (type : CompileM Ty) : CompileM.structFields type = (do
    CompileM.expect "\x7b"
    CompileM.repeatTurns [] (fieldTurn type)) := rfl

variable {fields done : List (String × Ty)} {f : String × Ty}

/-- What reads the type of a field, wherever its words are ahead. -/
def Reads (type : CompileM Ty) (t : Ty) : Prop :=
  ∀ ⦃c : Compiler⦄ ⦃ts us : List Token⦄, ts.map Token.word = t.words → c.Ahead (ts ++ us) →
    c.normalize = false → type c = (.ok t, c.emitted ts.length [])

/-- A type starts with a word that does not join it to what stands before. -/
theorem Built.starts (h : Built e) (words : ts.map Token.word = e.words) :
    ∃ a ts', ts = a :: ts' ∧ a.is "," = false := by
  have some : ∃ w ws, e.words = w :: ws ∧ w.2 ≠ "," := by
    cases h with
    | @plain k builtin =>
      simp only [builtinKinds, List.mem_cons, List.not_mem_nil, or_false] at builtin
      rcases builtin with rfl | rfl | rfl | rfl | rfl | rfl | rfl | rfl | rfl | rfl | rfl | rfl <;>
        exact ⟨_, _, rfl, by decide⟩
    | array | pointer | channel | map | struct => exact ⟨_, _, rfl, by decide⟩
  obtain ⟨w, ws, split, other⟩ := some
  rw [split] at words
  obtain ⟨a, ts', rfl, rfl, -⟩ := List.map_eq_cons_iff.1 words
  exact ⟨a, ts', rfl, by simp [is_word, other]⟩

theorem fieldTurn_field (reads : Reads type f.2) (built : Built f.2)
    (ahead : c.Ahead (a :: (ts ++ us))) (kept : c.normalize = false)
    (named : a.word = (.identifier, f.1)) (words : ts.map Token.word = f.2.words)
    (fresh : Association.has f.1 done = false) :
    fieldTurn type done c = (.ok (.again (done ++ [f])), c.emitted (ts.length + 1) []) := by
  obtain ⟨b, ts', split, alone⟩ := built.starts words
  have noMark (text : String) : c.cursor.isNext text = false := by
    rw [ahead.isNext, is_word, named]
    rfl
  have more : CompileM.atEnd c = (.ok false, c) := by
    rw [← ahead.atEnd]
    rfl
  have names : CompileM.nameList c = (.ok [f.1], c.emitted 1 []) :=
    nameList_one (by rw [split] at ahead; exact ahead) kept named alone
  have type := reads words (ahead.tail []) kept
  have added : CompileM.addFields f.2 [f.1] done = pure (done ++ [f]) := by
    simp [CompileM.addFields, fresh]
  rw [Compiler.emitted_emitted, Nat.add_comm] at type
  refine (bind_of_ok (accept_other (noMark _))).trans ?_
  refine (bind_of_ok (accept_other (noMark _))).trans ?_
  refine (bind_of_ok more).trans ?_
  refine (bind_of_ok names).trans ((bind_of_ok type).trans ?_)
  rw [added]
  rfl

theorem fieldTurn_semicolon (ahead : c.Ahead (a :: ts)) (semicolon : a.word = mark ";") :
    fieldTurn type done c = (.ok (.again done), c.emitted 1 []) := by
  have other : c.cursor.isNext "\x7d" = false := by
    rw [ahead.isNext, is_word, semicolon]
    rfl
  refine (bind_of_ok (accept_other other)).trans ?_
  exact bind_of_ok (accept_of ahead (Token.is_of_word semicolon))

theorem fieldTurn_done (ahead : c.Ahead (a :: ts)) (closing : a.word = mark "\x7d") :
    fieldTurn type done c = (.ok (.done done), c.emitted 1 []) :=
  bind_of_ok (accept_of ahead (Token.is_of_word closing))

/-- The fields of a struct type are read one by one, up to the closing brace. -/
theorem fieldTurns_of (reads : ∀ f ∈ fields, Built f.2 ∧ Reads type f.2)
    (distinct : ((done ++ fields).map Prod.fst).Nodup)
    (words : ts.map Token.word = fieldWords fields) (closing : a.word = mark "\x7d")
    (ahead : c.Ahead (ts ++ a :: us)) (kept : c.normalize = false)
    {left : Nat} (enough : ts.length < left) :
    CompileM.turns (fieldTurn type) left done c =
      (.ok (done ++ fields), c.emitted (ts.length + 1) []) := by
  induction fields generalizing c ts done left with
  | nil =>
    obtain ⟨left, rfl⟩ := Nat.exists_eq_add_one_of_ne_zero (Nat.ne_zero_of_lt enough)
    obtain rfl : ts = [] := by simpa [fieldWords] using words
    simpa using CompileM.turns_done (fieldTurn_done ahead closing) _
  | cons f fields ih =>
    have fresh : Association.has f.1 done = false := by
      have apart := (List.nodup_append.1 (List.map_append ▸ distinct)).2.2
      simp only [Association.has, List.any_eq_false, beq_iff_eq]
      exact fun g mem => apart g.1 (List.mem_map_of_mem mem) f.1 (by simp)
    have distinct : ((done ++ [f] ++ fields).map Prod.fst).Nodup := by simpa using distinct
    obtain ⟨built, readsType⟩ := reads f (by simp)
    have readsMore : ∀ g ∈ fields, Built g.2 ∧ Reads type g.2 :=
      fun g mem => reads g (by simp [mem])
    cases fields with
    | nil =>
      have split : ts.map Token.word = (.identifier, f.1) :: f.2.words := by
        simpa [fieldWords] using words
      obtain ⟨b, ts, rfl, named, typeWords⟩ := List.map_eq_cons_iff.1 split
      obtain ⟨left, rfl⟩ := Nat.exists_eq_add_one_of_ne_zero (Nat.ne_zero_of_lt enough)
      have turn := fieldTurn_field readsType built ahead kept named typeWords fresh
      have behind : (c.emitted (ts.length + 1) []).Ahead ([] ++ a :: us) :=
        Compiler.Ahead.right ahead []
      have last := @ih _ [] _ readsMore distinct rfl behind kept left (by simp at enough ⊢; omega)
      rw [CompileM.turns_again turn, last, Compiler.emitted_emitted]
      simp
    | cons g fields =>
      have split : ts.map Token.word = (.identifier, f.1) ::
          (f.2.words ++ mark ";" :: fieldWords (g :: fields)) := by
        simpa [fieldWords] using words
      obtain ⟨b, ts, rfl, named, split⟩ := List.map_eq_cons_iff.1 split
      obtain ⟨ts, vs, rfl, typeWords, split⟩ := List.map_eq_append_iff.1 split
      obtain ⟨d, vs, rfl, semicolon, rest⟩ := List.map_eq_cons_iff.1 split
      have aheadField : c.Ahead (b :: (ts ++ d :: (vs ++ a :: us))) := by simpa using ahead
      have turn := fieldTurn_field readsType built aheadField kept named typeWords fresh
      have behind : (c.emitted (ts.length + 1) []).Ahead (d :: (vs ++ a :: us)) :=
        @Compiler.Ahead.right c (b :: ts) _ aheadField []
      have next : fieldTurn type (done ++ [f]) (c.emitted (ts.length + 1) []) = _ :=
        fieldTurn_semicolon behind semicolon
      simp only [List.length_cons, List.length_append] at enough
      obtain ⟨left, rfl⟩ : ∃ n, left = n + 2 := ⟨left - 2, by omega⟩
      have later := @ih _ _ _ readsMore distinct rest (behind.tail []) kept left (by omega)
      rw [CompileM.turns_again turn, CompileM.turns_again next, later]
      have total : ts.length + 1 + (1 + (vs.length + 1)) = (b :: (ts ++ d :: vs)).length + 1 := by
        simp only [List.length_cons, List.length_append]
        omega
      rw [Compiler.emitted_emitted, Compiler.emitted_emitted, total]
      simp

theorem structFields_of (reads : ∀ f ∈ fields, Built f.2 ∧ Reads type f.2)
    (distinct : (fields.map Prod.fst).Nodup) (opening : b.word = mark "\x7b")
    (words : ts.map Token.word = fieldWords fields) (closing : a.word = mark "\x7d")
    (ahead : c.Ahead (b :: (ts ++ a :: us))) (kept : c.normalize = false) :
    CompileM.structFields type c = (.ok fields, c.emitted (ts.length + 2) []) := by
  have behind := ahead.tail []
  have enough :
      ts.length < (c.emitted 1 []).cursor.tokens.size - (c.emitted 1 []).cursor.pos + 2 := by
    have := behind.bound
    simp only [List.length_append] at this
    omega
  rw [structFields_eq]
  refine (bind_of_ok (expect_of ahead (Token.is_of_word opening))).trans ?_
  have turns := @fieldTurns_of _ _ _ _ type _ [] reads distinct words closing behind kept _ enough
  rw [CompileM.repeatTurns_eq, turns, Compiler.emitted_emitted, Nat.add_comm 1]
  rfl

/-! ## Types -/

theorem length_words_pos (h : Built e) : 0 < e.words.length := by
  cases h with
  | @plain k builtin =>
    simp only [builtinKinds, List.mem_cons, List.not_mem_nil, or_false] at builtin
    rcases builtin with rfl | rfl | rfl | rfl | rfl | rfl | rfl | rfl | rfl | rfl | rfl | rfl <;>
      exact Nat.succ_pos _
  | array | pointer | channel | map | struct => simp [words]

theorem length_words_field (mem : f ∈ fields) : f.2.words.length ≤ (fieldWords fields).length := by
  induction fields with
  | nil => cases mem
  | cons g fields ih =>
    cases fields with
    | nil =>
      obtain rfl : f = g := by simpa using mem
      simp [fieldWords]
    | cons h fields =>
      rcases List.mem_cons.1 mem with rfl | mem
      · simp [fieldWords]
        omega
      · have := ih mem
        simp [fieldWords] at this ⊢
        omega

/-- A builtin type without parts is read by its name. -/
theorem typeWith_builtin {k : Kind} (builtin : k ∈ builtinKinds) :
    Reads (typeWith type) (plain k) := by
  intro c ts us split ahead kept
  have named (known : (plain k).words = [(.identifier, k.name)])
      (found : ofName? k.name = some (plain k)) (other : k.name ≠ "sync") :
      typeWith type c = (.ok (plain k), c.emitted ts.length []) := by
    rw [known] at split
    obtain ⟨a, ts, rfl, first, rest⟩ := List.map_eq_cons_iff.1 split
    obtain rfl : ts = [] := by simpa using rest
    exact (typeWith_name ahead kept first).trans (namedType_builtin found other)
  have ofSync (name : String) (words : (plain k).words =
        [(.identifier, "sync"), mark ".", (.identifier, name)])
      (known : name = "WaitGroup" ∧ k = .waitGroup ∨ name = "Mutex" ∧ k = .mutex) :
      typeWith type c = (.ok (plain k), c.emitted ts.length []) := by
    rw [words] at split
    obtain ⟨a, ts, rfl, first, rest⟩ := List.map_eq_cons_iff.1 split
    obtain ⟨b, ts, rfl, second, rest⟩ := List.map_eq_cons_iff.1 rest
    obtain ⟨d, ts, rfl, third, rest⟩ := List.map_eq_cons_iff.1 rest
    obtain rfl : ts = [] := by simpa using rest
    rw [← (Prod.mk.inj third).2] at known
    exact (typeWith_name ahead kept first).trans (namedType_sync (ahead.tail []) second known)
  simp only [builtinKinds, List.mem_cons, List.not_mem_nil, or_false] at builtin
  rcases builtin with rfl | rfl | rfl | rfl | rfl | rfl | rfl | rfl | rfl | rfl | rfl | rfl
  case inr.inr.inr.inr.inr.inr.inr.inr.inr.inl =>
    obtain ⟨a, ts, rfl, first, rest⟩ := List.map_eq_cons_iff.1 split
    obtain ⟨b, ts, rfl, second, rest⟩ := List.map_eq_cons_iff.1 rest
    obtain ⟨d, ts, rfl, third, rest⟩ := List.map_eq_cons_iff.1 rest
    obtain rfl : ts = [] := by simpa using rest
    exact typeWith_interface ahead first second third
  case inr.inr.inr.inr.inr.inr.inr.inr.inr.inr.inl => exact ofSync "WaitGroup" rfl (.inl ⟨rfl, rfl⟩)
  case inr.inr.inr.inr.inr.inr.inr.inr.inr.inr.inr => exact ofSync "Mutex" rfl (.inr ⟨rfl, rfl⟩)
  all_goals exact named rfl rfl (by decide)

theorem emitted_read (c : Compiler) (m n : Nat) :
    (c.emitted m []).emitted n [] = c.emitted (n + m) [] := by
  rw [Compiler.emitted_emitted, Nat.add_comm]
  rfl

/-- The words of a type are read as this type, if types may nest as deep as there are words. -/
theorem typeTo_of (h : Built e) {depth : Nat} (deep : e.words.length ≤ depth) :
    Reads (typeTo depth) e := by
  induction h generalizing depth with
  | plain builtin =>
    obtain ⟨depth, rfl⟩ := Nat.exists_eq_add_one_of_ne_zero
      (Nat.ne_zero_of_lt (Nat.lt_of_lt_of_le (length_words_pos (.plain builtin)) deep))
    exact typeWith_builtin builtin
  | @array e _ ih =>
    simp only [words, List.length_append, List.length_cons, List.length_nil] at deep
    obtain ⟨depth, rfl⟩ : ∃ d, depth = d + 1 := ⟨depth - 1, by omega⟩
    intro c ts us split ahead kept
    obtain ⟨a, ts, rfl, first, rest⟩ := List.map_eq_cons_iff.1 split
    obtain ⟨b, ts, rfl, second, rest⟩ := List.map_eq_cons_iff.1 rest
    have element := ih (by omega : e.words.length ≤ depth) rest
      (@Compiler.Ahead.right c [a, b] _ ahead []) kept
    rw [emitted_read] at element
    exact typeWith_array ahead first second element
  | @pointer e _ ih =>
    simp only [words, List.length_append, List.length_cons, List.length_nil] at deep
    obtain ⟨depth, rfl⟩ : ∃ d, depth = d + 1 := ⟨depth - 1, by omega⟩
    intro c ts us split ahead kept
    obtain ⟨a, ts, rfl, first, rest⟩ := List.map_eq_cons_iff.1 split
    have target := ih (by omega : e.words.length ≤ depth) rest (ahead.tail []) kept
    rw [emitted_read] at target
    exact typeWith_pointer ahead first target
  | @channel e _ ih =>
    simp only [words, List.length_append, List.length_cons, List.length_nil] at deep
    obtain ⟨depth, rfl⟩ : ∃ d, depth = d + 1 := ⟨depth - 1, by omega⟩
    intro c ts us split ahead kept
    obtain ⟨a, ts, rfl, first, rest⟩ := List.map_eq_cons_iff.1 split
    have element := ih (by omega : e.words.length ≤ depth) rest (ahead.tail []) kept
    rw [emitted_read] at element
    exact typeWith_channel ahead first element
  | @map k v _ _ ihKey ihValue =>
    simp only [words, List.length_append, List.length_cons, List.length_nil] at deep
    obtain ⟨depth, rfl⟩ : ∃ d, depth = d + 1 := ⟨depth - 1, by omega⟩
    intro c ts us split ahead kept
    simp only [words, List.cons_append, List.nil_append] at split
    obtain ⟨a, ts, rfl, first, rest⟩ := List.map_eq_cons_iff.1 split
    obtain ⟨b, ts, rfl, second, parts⟩ := List.map_eq_cons_iff.1 rest
    obtain ⟨keys, ts, rfl, keyWords, more⟩ := List.map_eq_append_iff.1 parts
    obtain ⟨d, ts, rfl, third, valueWords⟩ := List.map_eq_cons_iff.1 more
    have behind : (c.emitted 2 []).Ahead (keys ++ (d :: (ts ++ us))) := by
      have := @Compiler.Ahead.right c [a, b] _ ahead []
      simpa using this
    have key := ihKey (by omega : k.words.length ≤ depth) keyWords behind kept
    have closing := behind.right []
    rw [emitted_read] at key closing
    have value := ihValue (by omega : v.words.length ≤ depth) valueWords (closing.tail []) kept
    rw [emitted_read, emitted_read, Nat.add_comm 1] at value
    have total : ts.length + (keys.length + 2 + 1) = (a :: b :: (keys ++ d :: ts)).length := by
      simp only [List.length_cons, List.length_append]
      omega
    rw [← total]
    exact typeWith_map ahead first second key closing third value
  | @struct fields distinct named built ih =>
    simp only [words, List.length_append, List.length_cons, List.length_nil] at deep
    obtain ⟨depth, rfl⟩ : ∃ d, depth = d + 1 := ⟨depth - 1, by omega⟩
    intro c ts us split ahead kept
    simp only [words, List.cons_append, List.nil_append] at split
    obtain ⟨a, ts, rfl, first, rest⟩ := List.map_eq_cons_iff.1 split
    obtain ⟨b, ts, rfl, second, parts⟩ := List.map_eq_cons_iff.1 rest
    obtain ⟨ts, ends, rfl, inside, more⟩ := List.map_eq_append_iff.1 parts
    obtain ⟨d, ends, rfl, closing, none⟩ := List.map_eq_cons_iff.1 more
    obtain rfl : ends = [] := by simpa using none
    have reads : ∀ f ∈ fields, Built f.2 ∧ Reads (typeTo depth) f.2 := fun f mem => by
      have short := length_words_field mem
      exact ⟨built f mem, ih f mem (by omega)⟩
    have behind : (c.emitted 1 []).Ahead (b :: (ts ++ d :: us)) := by simpa using ahead.tail []
    have read := structFields_of reads distinct second inside closing behind kept
    rw [emitted_read] at read
    have total : ts.length + 2 + 1 = (a :: b :: (ts ++ [d])).length := by simp
    rw [← total]
    exact typeWith_struct ahead first read

/-! ## Texts -/

/-- **Types read back.** The text of a type that is built from the builtin ones is scanned without a
fault, and any compiler that keeps names as they are and stands at the first of its tokens reads
them all as this type. -/
theorem display_parses (built : Built e) (c : Compiler) (kept : c.normalize = false) :
    (Token.scan e.display).fault = none ∧
      CompileM.parseType
          { c with cursor := Token.Cursor.ofTokens (Token.scan e.display).tokens e.display } =
        (.ok e, { c with cursor :=
          { Token.Cursor.ofTokens (Token.scan e.display).tokens e.display with
            pos := (Token.scan e.display).tokens.length } }) := by
  obtain ⟨whole, split⟩ := scan_display built
  refine ⟨whole, ?_⟩
  generalize (Token.scan e.display).tokens = ts at split ⊢
  have ahead : Compiler.Ahead { c with cursor := Token.Cursor.ofTokens ts e.display } (ts ++ []) :=
    ⟨[], by simp [Token.Cursor.ofTokens]⟩
  have deep : e.words.length ≤ ts.length + 2 := by
    rw [← split, List.length_map]
    omega
  have read := typeTo_of built deep split ahead kept
  have bound : CompileM.turnBound { c with cursor := Token.Cursor.ofTokens ts e.display } =
      (.ok (ts.length + 2), { c with cursor := Token.Cursor.ofTokens ts e.display }) := rfl
  refine (bind_of_ok bound).trans (read.trans ?_)
  simp [Compiler.emitted, Token.Cursor.ofTokens]

/-- A map of structs that hold locks and a channel. -/
def guards : Ty :=
  .map (.plain .string) (.struct [("locks", .array (.pointer (.plain .mutex))),
    ("_done", .channel (.struct []))])

theorem guards_parses : Built guards ∧ (Compiler.new "main" {}).normalize = false ∧
    guards.display = "map[string]struct\x7blocks []*sync.Mutex; _done chan struct\x7b\x7d\x7d" ∧
      (CompileM.parseType { Compiler.new "main" {} with
        cursor := Token.Cursor.ofTokens (Token.scan guards.display).tokens guards.display }).1 =
          .ok guards := by
  have built : Built guards := by
    refine .map (.plain (by decide)) (.struct (by decide) ?_ ?_)
    · simp only [List.forall_mem_cons, List.not_mem_nil, false_implies, implies_true, and_true]
      exact ⟨⟨⟨'l', by decide, by decide⟩, by decide, by decide⟩,
        ⟨⟨'_', by decide, by decide⟩, by decide, by decide⟩⟩
    · simp only [List.forall_mem_cons, List.not_mem_nil, false_implies, implies_true, and_true]
      exact ⟨.array (.pointer (.plain (by decide))),
        .channel (.struct (by decide) (by simp) (by simp))⟩
  refine ⟨built, rfl, rfl, ?_⟩
  rw [(display_parses built (Compiler.new "main" {}) rfl).2]

end StackScript.Ty
