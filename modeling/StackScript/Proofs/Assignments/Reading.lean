import StackScript.Proofs.Assignments.Code
import StackScript.Proofs.Compiling.Emission
import StackScript.Proofs.Expressions.Compiled
import StackScript.Proofs.Statements.Reading

/-!
# Reading elements

How elements are written, and that a compiler reads them as they are written: it keeps the code of
the container and that of the last step on the side, and adds both where the element is read and
where it is stored.

Main statements: `Element.Laid.target_of`, `emitLoad_of` and `emitStore_of`.
-/
namespace StackScript

open CompileM

/-! ## Writing -/

/-- Tokens that spell a step. -/
inductive Part.Laid : Part → List Token → Prop
  | index {first last : Token} {e : Expr} {ts : List Token} (opens : first.word = mark "[")
      (inner : Written (.expr .choice e) ts) (closes : last.word = mark "]") :
      Part.Laid (.index e) (first :: (ts ++ [last]))
  | field {dot t : Token} (word : dot.word = mark ".") (tag : t.tag = .identifier) :
      Part.Laid (.field t.spelling) [dot, t]

/-- Tokens that spell steps, the first one first. -/
inductive StepsLaid : List Part → List Token → Prop
  | none : StepsLaid [] []
  | more {p : Part} {ps : List Part} {ts us : List Token} (first : p.Laid ts)
      (rest : StepsLaid ps us) : StepsLaid (p :: ps) (ts ++ us)

/-- Tokens that spell an element. -/
inductive Element.Laid : Element → List Token → Prop
  | intro {t : Token} {steps : List Part} {last : Part} {ts us : List Token}
      (name : t.tag = .identifier) (path : StepsLaid steps ts) (final : last.Laid us) :
      Element.Laid ⟨t.spelling, steps, last⟩ (t :: (ts ++ us))

theorem Part.Laid.ne_nil {p : Part} {ts : List Token} (h : p.Laid ts) : ts ≠ [] := by
  cases h <;> simp

theorem StepsLaid.length_le {ps : List Part} {ts : List Token} (h : StepsLaid ps ts) :
    ps.length ≤ ts.length := by
  induction h with
  | none => exact Nat.le_refl _
  | more first _ ih =>
    have := List.length_pos_iff.2 first.ne_nil
    simp only [List.length_cons, List.length_append]
    omega

theorem StepsLaid.concat {ps : List Part} {p : Part} {ts us : List Token} (h : StepsLaid ps ts)
    (last : p.Laid us) : StepsLaid (ps ++ [p]) (ts ++ us) := by
  induction h with
  | none =>
    have one : StepsLaid [p] (us ++ []) := .more last .none
    simpa using one
  | more first _ ih =>
    rw [List.append_assoc]
    exact .more first ih

/-! ## Counts -/

theorem Part.Laid.short {p : Part} {ts : List Token} (h : p.Laid ts) (few : ts.length < countLimit) :
    p.Short := by
  cases h with
  | index opens inner closes =>
    simp only [List.length_cons, List.length_append] at few
    exact inner.short (by omega)
  | field => trivial

theorem StepsLaid.short {ps : List Part} {ts : List Token} (h : StepsLaid ps ts)
    (few : ts.length < countLimit) : ∀ p ∈ ps, p.Short := by
  induction h with
  | none => exact nofun
  | more first _ ih =>
    rw [List.length_append] at few
    exact List.forall_mem_cons.2 ⟨first.short (by omega), ih (by omega)⟩

/-- Arrays in an element have no more items than there are tokens. -/
theorem Element.Laid.short {d : Element} {ts : List Token} (h : d.Laid ts)
    (few : ts.length < countLimit) : d.Short := by
  cases h with
  | intro name path final =>
    simp only [List.length_cons, List.length_append] at few
    exact ⟨path.short (by omega), final.short (by omega)⟩

/-! ## Known by the operator -/

variable {ts us : List Token} {line : Nat}

theorem Part.Laid.passedOn {p : Part} (h : p.Laid ts) (lines : ∀ t ∈ ts, t.line = line) :
    PassedOn line ts := by
  cases h with
  | index opens inner closes =>
    exact .between opens inner.crossed closes (by decide) (lines _ (by simp)) (lines _ (by simp))
  | @field dot t word tag =>
    exact (PassedOn.of_word (lines dot (by simp)) word (by decide)).append
      (.name (lines t (by simp)) tag)

theorem StepsLaid.passedOn {ps : List Part} (h : StepsLaid ps ts) (lines : ∀ t ∈ ts, t.line = line) :
    PassedOn line ts := by
  induction h with
  | none => exact .nil
  | more first rest ih =>
    rw [List.forall_mem_append] at lines
    exact (first.passedOn lines.1).append (ih lines.2)

theorem Element.Laid.passedOn {d : Element} (h : d.Laid ts) (lines : ∀ t ∈ ts, t.line = line) :
    PassedOn line ts := by
  cases h with
  | @intro t _ _ _ _ name path final =>
    obtain ⟨first, others⟩ := List.forall_mem_cons.1 lines
    rw [List.forall_mem_append] at others
    exact (PassedOn.name first name).append ((path.passedOn others.1).append (final.passedOn others.2))

/-! ## Steps -/

variable {spell : String → String}

theorem stepsCode_concat (ps : List Part) (p : Part) (start : Nat) :
    stepsCode spell start (ps ++ [p]) =
      stepsCode spell start ps ++ p.code spell (start + (stepsCode spell start ps).length) := by
  induction ps generalizing start with
  | nil => simp [stepsCode]
  | cons q ps ih => simp [stepsCode, ih, Nat.add_assoc]

variable {package : String → String → Option String → CompileM CodeRef} {depth : Nat}
variable {c c' : Compiler} {t : Token} {ts us : List Token} {rules : Nested}

/-- What was read of a step: the code of its index on the side, or its name. -/
inductive Part.Kept (spell : String → String) : Part → Access → Prop
  | index {e : Expr} {code : Code} (holds : code.Holds (e.code spell 0)) :
      Part.Kept spell (.index e) (.index code)
  | field (name : String) : Part.Kept spell (.field name) (.field (spell name))

namespace Part.Kept

variable {p : Part} {access : Access} {container : Code} {is : List Instruction}

theorem code (h : p.Kept spell access) : access.code.Holds (p.keyCode spell 0) := by
  cases h with
  | index holds => exact holds
  | field name => exact (Code.Holds.empty "index").pushAll [_]

/-- Taking a step adds its code to that of the container. -/
theorem take_of (h : p.Kept spell access) (holds : container.Holds is) (c : Compiler) :
    ∃ code, access.take container c = (.ok code, c) ∧
      code.Holds (is ++ p.code spell is.length) := by
  cases h with
  | @index e code index =>
    have moved := index.append holds.unsealed
    rw [(e.movable spell).shifted, Nat.zero_add, holds.size] at moved
    have joins : joined container code c =
        (.ok (container.pushAll (e.code spell is.length)), c) := by
      rw [joined, moved]
      rfl
    refine ⟨_, (bind_of_ok joins).trans rfl, ?_⟩
    have both := (holds.pushAll (e.code spell is.length)).pushAll [⟨.loadIndex, .none⟩]
    rwa [List.append_assoc] at both
  | field name => exact ⟨_, rfl, holds.pushAll [_]⟩

end Part.Kept

/-- A step is read from the tokens that spell it. -/
theorem nextAccess_of {p : Part} (laid : p.Laid ts) (reading : Reading package depth c ts) :
    ∃ access, nextAccess (rulesTo package (depth + 1)) c =
      (.ok (some access), c.emitted ts.length []) ∧ p.Kept c.spelling access := by
  cases laid with
  | @index first last e ts opens inner closes =>
    have behind := reading.tail []
    have side : Reading package depth (setCode { name := "scratch" } (c.emitted 1 [])) ts :=
      behind.left.of_cursor rfl rfl
    have read := inner.parses side
      (.of_is (behind.right []).ahead (Token.is_of_word closes) (by decide))
    have captured := @capture_of (c.emitted 1 []) _ _ (e.code c.spelling 0) read
    refine ⟨.index (aside (e.code c.spelling 0)), ?_, .index (aside_holds _)⟩
    refine (bind_of_ok (accept_of reading.ahead (Token.is_of_word opens))).trans ?_
    refine (bind_of_ok captured).trans ?_
    rw [Compiler.emitted_emitted]
    have closing : ((c.emitted (1 + ts.length) []).Ahead [last]) := by
      have := (behind.right []).ahead
      rwa [Compiler.emitted_emitted] at this
    refine (bind_of_ok (expect_of closing (Token.is_of_word closes))).trans ?_
    rw [Compiler.emitted_emitted, List.length_cons, List.length_append, Nat.add_comm 1,
      Nat.add_right_comm]
    rfl
  | @field dot t word tag =>
    have bracket : c.cursor.isNext "[" = false := by
      rw [reading.ahead.isNext]
      exact Token.is_other (Token.is_of_word word) (by decide)
    refine ⟨.field (c.spelling t.spelling), ?_, .field t.spelling⟩
    refine (bind_of_ok (accept_other bracket)).trans ?_
    refine (bind_of_ok (accept_of reading.ahead (Token.is_of_word word))).trans ?_
    refine (bind_of_ok (identifier_of (reading.tail []).ahead tag)).trans ?_
    rw [Compiler.emitted_emitted]
    rfl

/-- Where no bracket and no dot stands there is no step. -/
theorem nextAccess_none (bracket : c.cursor.isNext "[" = false) (dot : c.cursor.isNext "." = false) :
    nextAccess rules c = (.ok none, c) :=
  (bind_of_ok (accept_other bracket)).trans ((bind_of_ok (accept_other dot)).trans rfl)

/-! ## Chains of steps -/

/-- A turn of the reading of a chain: the code of the container, and a step that is not taken yet. -/
def chainStep (rules : Nested) : Code × Option Access →
    CompileM (Turn (Code × Option Access) Target) := fun (container, pending) => do
  match ← nextAccess rules, pending with
  | some access, some last => pure (.again (← last.take container, some access))
  | some access, none => pure (.again (container, some access))
  | none, some last => pure (.done (.element container last.code))
  | none, none => fail .invalidAssignment

/-- What was read of a chain: the container of all steps but the last, and the last. -/
inductive ChainKept (spell : String → String) (name : String) :
    List Part → Code × Option Access → Prop
  | start {container : Code} (holds : container.Holds [⟨.load, .name (spell name)⟩]) :
      ChainKept spell name [] (container, none)
  | more {steps : List Part} {last : Part} {container : Code} {access : Access}
      (holds : container.Holds (⟨.load, .name (spell name)⟩ :: stepsCode spell 1 steps))
      (kept : last.Kept spell access) :
      ChainKept spell name (steps ++ [last]) (container, some access)

/-- Another step is read, and the one before it is taken. -/
theorem chainStep_again {name : String} {done : List Part} {p : Part}
    {state : Code × Option Access} (kept : ChainKept c.spelling name done state) (laid : p.Laid ts)
    (reading : Reading package depth c ts) :
    ∃ state', chainStep (rulesTo package (depth + 1)) state c =
        (.ok (.again state'), c.emitted ts.length []) ∧
      ChainKept c.spelling name (done ++ [p]) state' := by
  obtain ⟨access, read, next⟩ := nextAccess_of laid reading
  cases kept with
  | start holds => exact ⟨_, (bind_of_ok read).trans rfl, @ChainKept.more _ _ [] _ _ _ holds next⟩
  | @more steps last container pending holds kept =>
    obtain ⟨code, taken, held⟩ := kept.take_of holds (c.emitted ts.length [])
    refine ⟨_, (bind_of_ok read).trans ((bind_of_ok taken).trans rfl), .more ?_ next⟩
    rw [stepsCode_concat, Nat.add_comm 1]
    exact held

/-- Steps are read one by one. -/
theorem chainStep_turns {name : String} {ps : List Part} (laid : StepsLaid ps ts)
    {c : Compiler} {done : List Part} {state : Code × Option Access}
    (kept : ChainKept c.spelling name done state) (reading : Reading package depth c ts)
    (left : Nat) :
    ∃ state', turns (chainStep (rulesTo package (depth + 1))) (left + ps.length) state c =
        turns (chainStep (rulesTo package (depth + 1))) left state' (c.emitted ts.length []) ∧
      ChainKept c.spelling name (done ++ ps) state' := by
  induction laid generalizing c done state with
  | none => exact ⟨state, rfl, by simpa using kept⟩
  | @more p ps ts us first rest ih =>
    obtain ⟨state₁, turn, kept₁⟩ := chainStep_again kept first reading.left
    obtain ⟨state₂, others, kept₂⟩ := ih (c := c.emitted ts.length []) kept₁ (reading.right [])
    refine ⟨state₂, ?_, by simpa using kept₂⟩
    rw [List.length_cons, ← Nat.add_assoc, turns_again turn, others, Compiler.emitted_emitted,
      List.length_append]
    rfl

/-- An element is kept as the code of its container and that of the index in it. -/
structure Element.Kept (spell : String → String) (d : Element) (container index : Code) : Prop where
  container : container.Holds (d.containerCode spell 0)
  index : index.Holds (d.last.keyCode spell 0)

/-- Behind the last step the element is known. -/
theorem chainStep_done {name : String} {steps : List Part} {last : Part}
    {state : Code × Option Access} (kept : ChainKept spell name (steps ++ [last]) state)
    (ends : c.cursor.isNext "[" = false ∧ c.cursor.isNext "." = false) :
    ∃ container index, chainStep rules state c = (.ok (.done (.element container index)), c) ∧
      (⟨name, steps, last⟩ : Element).Kept spell container index := by
  generalize hd : steps ++ [last] = all at kept
  cases kept with
  | start => simp at hd
  | @more _ _ container access holds kept =>
    obtain ⟨rfl, same⟩ := List.append_inj' hd rfl
    cases same
    exact ⟨container, access.code, (bind_of_ok (nextAccess_none ends.1 ends.2)).trans rfl, holds,
      kept.code⟩

/-- A bracket or a dot stands before every step. -/
theorem Part.Laid.isAnyNext {p : Part} (laid : p.Laid ts) (ahead : c.Ahead ts) :
    CompileM.isAnyNext ["[", "."] c = (.ok true, c) := by
  have access : c.cursor.isAnyNext ["[", "."] = true := by
    simp only [Token.Cursor.isAnyNext, List.any_cons, List.any_nil, Bool.or_false]
    cases laid with
    | index opens => rw [ahead.isNext, Token.is_of_word opens, Bool.true_or]
    | field word => rw [ahead.isNext, ahead.isNext, Token.is_of_word word, Bool.or_true]
  rw [← access]
  rfl

/-- An element is read from the tokens that spell it. -/
theorem Element.Laid.target_of {d : Element} (laid : d.Laid ts)
    (reading : Reading package depth c ts)
    (ends : (c.emitted ts.length []).cursor.isNext "[" = false ∧
      (c.emitted ts.length []).cursor.isNext "." = false) :
    ∃ container index, target (rulesTo package (depth + 1)) c =
        (.ok (.element container index), c.emitted ts.length []) ∧
      d.Kept c.spelling container index := by
  cases laid with
  | @intro t steps last ts us name path final =>
    have star : c.cursor.isNext "*" = false := by
      rw [reading.ahead.isNext]
      simp [Token.is, name]
    have behind := reading.tail []
    have access : CompileM.isAnyNext ["[", "."] (c.emitted 1 []) = (.ok true, c.emitted 1 []) := by
      cases path with
      | none => exact final.isAnyNext behind.ahead
      | more one rest =>
        have ahead := behind.ahead
        rw [List.append_assoc] at ahead
        exact one.isAnyNext ahead.left
    -- there are turns enough for all steps
    have chain := path.concat final
    have enough := behind.ahead.bound
    have fits := chain.length_le
    obtain ⟨left, bound⟩ : ∃ left, (c.emitted 1 []).cursor.tokens.size -
        (c.emitted 1 []).cursor.pos + 2 = left + 1 + (steps ++ [last]).length :=
      ⟨(c.emitted 1 []).cursor.tokens.size - (c.emitted 1 []).cursor.pos + 1 -
        (steps ++ [last]).length, by omega⟩
    let fresh : Code := Code.push { name := "container" } ⟨.load, .name (c.spelling t.spelling)⟩
    have start : ChainKept c.spelling t.spelling [] (fresh, none) :=
      .start ((Code.Holds.empty "container").pushAll [_])
    obtain ⟨state, turned, kept⟩ :=
      chainStep_turns chain (c := c.emitted 1 []) start behind (left + 1)
    have total : (c.emitted 1 []).emitted (ts ++ us).length [] =
        c.emitted (t :: (ts ++ us)).length [] := by
      rw [Compiler.emitted_emitted, List.length_cons, Nat.add_comm 1]
      rfl
    rw [total] at turned
    obtain ⟨container, index, done, kept⟩ :=
      @chainStep_done _ _ (rulesTo package (depth + 1)) _ _ _ _ kept ends
    refine ⟨container, index, ?_, kept⟩
    refine (bind_of_ok (accept_other star)).trans ?_
    refine (bind_of_ok (identifier_of reading.ahead name)).trans ((bind_of_ok access).trans ?_)
    have run : repeatTurns (fresh, none) (chainStep (rulesTo package (depth + 1)))
        (c.emitted 1 []) =
        (.ok (.element container index), c.emitted (t :: (ts ++ us)).length []) := by
      rw [repeatTurns_eq, bound, turned]
      exact turns_done done left
    exact run

/-! ## Reading and storing -/

variable {d : Element} {container index : Code}

/-- The code that an element is kept as is added one after the other. -/
theorem Element.Kept.append_of (kept : d.Kept spell container index)
    (unsealed : c.draft.code.isSealed = false) (n : Nat) (is : List Instruction) :
    append container (c.emitted n is) =
        (.ok (), c.emitted n (is ++ d.containerCode spell (c.here + is.length))) ∧
      append index (c.emitted n (is ++ d.containerCode spell (c.here + is.length))) =
        (.ok (), c.emitted n (is ++ d.partsCode spell (c.here + is.length))) := by
  have first := append_holds kept.container (c := c.emitted n is) (by simpa using unsealed)
  rw [(d.containerCode_movable spell).shifted, Nat.zero_add, c.emitted_here, c.emitted_emitted,
    Nat.add_zero] at first
  refine ⟨first, ?_⟩
  obtain ⟨js, hjs⟩ : ∃ js, js = is ++ d.containerCode spell (c.here + is.length) := ⟨_, rfl⟩
  rw [← hjs]
  refine (append_holds kept.index (c := c.emitted n js) (by simpa using unsealed)).trans ?_
  rw [(d.last.keyCode_movable spell).shifted, Nat.zero_add, c.emitted_here, c.emitted_emitted,
    Nat.add_zero, hjs, List.append_assoc, List.length_append, ← Nat.add_assoc]
  rfl

theorem emitLoad_of (kept : d.Kept spell container index)
    (unsealed : c.draft.code.isSealed = false) (n : Nat) (is : List Instruction) :
    emitLoad (.element container index) (c.emitted n is) =
      (.ok (), c.emitted n (is ++ d.loadCode spell (c.here + is.length))) := by
  obtain ⟨one, two⟩ := kept.append_of unsealed n is
  refine (bind_of_ok one).trans ((bind_of_ok two).trans ?_)
  refine (emit_emitted unsealed n _ .loadIndex .none).trans ?_
  rw [List.append_assoc]
  rfl

theorem emitStore_of (kept : d.Kept spell container index)
    (unsealed : c.draft.code.isSealed = false) (n : Nat) (is : List Instruction) :
    emitStore false (.element container index) (c.emitted n is) =
      (.ok (), c.emitted n (is ++ d.storeCode spell (c.here + is.length))) := by
  obtain ⟨one, two⟩ := kept.append_of unsealed n is
  refine (bind_of_ok one).trans ((bind_of_ok two).trans ?_)
  refine (bind_of_ok (emit_emitted unsealed n _ .readStack _)).trans ?_
  refine (bind_of_ok (emit_emitted unsealed n _ .storeIndex _)).trans ?_
  refine (emit_emitted unsealed n _ .drop _).trans ?_
  simp only [List.append_assoc]
  rfl

end StackScript
