import StackScript.Proofs.Compiling.Sessions
import StackScript.Proofs.Faults

/-!
# Where steps of compilation lead

`Leads P m Q` says where a step that succeeds comes to. Most steps of a compiler only read tokens:
they are `Quiet`, and keep whatever is known of the code. Both kinds see nothing of the finished
units but how many there are, and none of their faults is a signal.

Main statements: `Leads.bind` and `Leads.repeatTurns` (steps one after the other), and `Quiet` for
every step that reads.
-/
namespace StackScript

/-- A compiler that stands at another token and has made up other names. -/
def Compiler.moved (c : Compiler) (cursor : Token.Cursor) (count : Nat) : Compiler :=
  { c with cursor := cursor, tempCounter := count }

/-- A compiler that comes after other finished units. -/
def Compiler.over (c : Compiler) (codes : Array Code) : Compiler := { c with codes := codes }

/-- An operand that is neither a frame nor an error nor a struct nor a tuple; only runs make those. -/
structure Operand.Inert (operand : Operand) : Prop where
  frameless : ∀ f, operand ≠ .value (.frame f)
  errorless : ∀ f, operand ≠ .value (.error f)
  structless : ∀ r, operand ≠ .value (.struct r)
  tupleless : ∀ r, operand ≠ .value (.tuple r)

/-- Every operand of the unit is inert. -/
def Code.Inert (code : Code) : Prop := ∀ i ∈ code.instructions, i.operand.Inert

namespace CompileM

variable {α β σ : Type} {c c' : Compiler}

/-- A sequence has failed if its first part has. -/
theorem bind_ok {m : CompileM α} {f : α → CompileM β} {b : β}
    (h : (m >>= f) c = (.ok b, c')) : ∃ a c₁, m c = (.ok a, c₁) ∧ f a c₁ = (.ok b, c') := by
  rcases first : m c with ⟨_ | a, c₁⟩
  · rw [bind_of_error first] at h
    cases h
  · rw [bind_of_ok first] at h
    exact ⟨a, c₁, rfl, h⟩

theorem throw_eq (f : Fault) (c : Compiler) : (throw f : CompileM α) c = (.error f, c) := rfl

/-! ## Finished units -/

/-- From a compiler a step adds inert units, and what it does depends only on how many units there
are before. If it fails, its fault is no signal. -/
structure Extends (m : CompileM α) (c : Compiler) : Prop where
  adds : ∃ more : Array Code, (∀ code ∈ more, code.Inert) ∧ ∀ codes : Array Code,
    codes.size = c.codes.size → m (c.over codes) = ((m c).1, (m c).2.over (codes ++ more))
  ordinary : Except.Ordinary (m c).1

namespace Extends

variable {m : CompileM α} {f : α → CompileM β}

/-- A step that adds nothing. -/
theorem of_same (h : ∀ codes, m (c.over codes) = ((m c).1, (m c).2.over codes))
    (ordinary : Except.Ordinary (m c).1) : Extends m c := by
  refine ⟨⟨#[], by simp, fun codes _ => ?_⟩, ordinary⟩
  rw [Array.append_empty]
  exact h codes

theorem codes (h : Extends m c) : ∃ more : Array Code, (m c).2.codes = c.codes ++ more := by
  obtain ⟨⟨more, -, same⟩, -⟩ := h
  exact ⟨more, congrArg (fun r => r.2.codes) (same c.codes rfl)⟩

theorem bind (first : Extends m c) (next : ∀ a c', m c = (.ok a, c') → Extends (f a) c') :
    Extends (m >>= f) c := by
  obtain ⟨⟨more, inert, same⟩, ordinary⟩ := first
  rcases ran : m c with ⟨f | a, c'⟩ <;> rw [ran] at same ordinary
  · refine ⟨⟨more, inert, fun codes size => ?_⟩, ?_⟩
    · rw [bind_of_error ran]
      exact bind_of_error (same codes size)
    · rw [bind_of_error ran]
      exact .error (ordinary f rfl)
  · obtain ⟨⟨more', inert', same'⟩, ordinary'⟩ := next a c' ran
    have there : c'.codes = c.codes ++ more :=
      congrArg (fun r => r.2.codes) (ran.symm.trans (same c.codes rfl))
    refine ⟨⟨more ++ more', fun code mem => ?_, fun codes size => ?_⟩, ?_⟩
    · exact (Array.mem_append.1 mem).elim (inert code) (inert' code)
    · rw [bind_of_ok ran, ← Array.append_assoc]
      refine (bind_of_ok (same codes size)).trans (same' (codes ++ more) ?_)
      rw [there, Array.size_append, Array.size_append, size]
    · rw [bind_of_ok ran]
      exact ordinary'

end Extends

/-- A step that fails everywhere, with a fault that is no signal. -/
def Refuses (m : CompileM α) : Prop :=
  ∀ c, (∃ f, f.Ordinary ∧ m c = (.error f, c)) ∧
    ∀ codes, m (c.over codes) = ((m c).1, c.over codes)

theorem throw_refuses {fault : Fault} (h : fault.Ordinary) : Refuses (throw fault : CompileM α) :=
  fun _ => ⟨⟨_, h, rfl⟩, fun _ => rfl⟩

theorem faultHere_ordinary {kind : FaultKind} (h : kind ≠ .debuggerSignal) (c : Compiler) :
    ∃ f : Fault, f.Ordinary ∧ faultHere kind c = (.ok f, c) := by
  refine ⟨_, ?_, rfl⟩
  have known : ((Fault.of kind).inModule c.moduleName).Ordinary := .of_kind rfl h
  split
  · exact known.positioned _ _
  · exact (known.positioned _ _).withContext _

theorem fail_refuses (kind : FaultKind) (h : kind ≠ .debuggerSignal) :
    Refuses (fail kind : CompileM α) := fun c =>
  have ⟨f, ordinary, here⟩ := faultHere_ordinary h c
  ⟨⟨f, ordinary, bind_of_ok here⟩, fun _ => rfl⟩

theorem failAbout_refuses (kind : FaultKind) (context : String)
    (h : kind ≠ .debuggerSignal) : Refuses (failAbout kind context : CompileM α) := fun c =>
  have ⟨f, ordinary, here⟩ := faultHere_ordinary h c
  ⟨⟨f.withContext context, ordinary.withContext _, bind_of_ok here⟩, fun _ => rfl⟩

/-- No step takes more turns than it may. -/
theorem limit_refuses : Refuses (throw (.of .limitReached) : CompileM α) :=
  throw_refuses (.of_kind rfl nofun)

theorem Refuses.bind {m : CompileM α} (h : Refuses m) (f : α → CompileM β) :
    Refuses (m >>= f) := by
  intro c
  obtain ⟨⟨fault, ordinary, failed⟩, same⟩ := h c
  refine ⟨⟨fault, ordinary, bind_of_error failed⟩, fun codes => ?_⟩
  have failed' := same codes
  rw [failed] at failed'
  rw [bind_of_error failed, bind_of_error failed']

/-! ## What holds afterwards -/

/-- From compilers with one property, a step that succeeds leads to compilers with another. -/
def Leads (P : Compiler → Prop) (m : CompileM α) (Q : α → Compiler → Prop) : Prop :=
  ∀ c, P c → Extends m c ∧ ∀ a c', m c = (.ok a, c') → Q a c'

/-- What holds after a turn: something of the next state, or of the result. -/
def AfterTurn (I : σ → Compiler → Prop) (R : β → Compiler → Prop) : Turn σ β → Compiler → Prop
  | .again s => I s
  | .done b => R b

namespace Leads

variable {P P' : Compiler → Prop} {Q Q' : α → Compiler → Prop} {R : β → Compiler → Prop}
variable {m : CompileM α} {f : α → CompileM β}

theorem reaches (h : Leads P m Q) {a : α} (before : P c) (run : m c = (.ok a, c')) : Q a c' :=
  (h c before).2 a c' run

theorem pure {a : α} (h : ∀ c, P c → Q a c) : Leads P (Pure.pure a) Q := by
  refine fun c before => ⟨.of_same (fun _ => rfl) (.ok _), fun b c' run => ?_⟩
  cases run
  exact h c before

theorem bind (first : Leads P m Q) (next : ∀ a, Leads (Q a) (f a) R) : Leads P (m >>= f) R := by
  refine fun c before => ⟨?_, fun b c' run => ?_⟩
  · exact (first c before).1.bind fun a c' ran => (next a c' (first.reaches before ran)).1
  · obtain ⟨a, c₁, ran, rest⟩ := bind_ok run
    exact (next a).reaches (first.reaches before ran) rest

/-- Looking at the compiler, but not at its finished units. -/
theorem readAs {f : Compiler → CompileM β} (blind : ∀ d codes, f (d.over codes) = f d)
    (next : ∀ d, Leads (fun c => c = d ∧ P c) (f d) R) : Leads P (get >>= f) R := by
  intro c before
  obtain ⟨⟨⟨more, inert, same⟩, ordinary⟩, leads⟩ := next c c ⟨rfl, before⟩
  refine ⟨⟨⟨more, inert, fun codes size => ?_⟩, ordinary⟩, leads⟩
  have same := same codes size
  rw [← blind c codes] at same
  exact same.trans (by rw [blind]; rfl)

theorem read {f : Compiler → CompileM β} (blind : ∀ d codes, f (d.over codes) = f d)
    (next : ∀ d, Leads P (f d) R) : Leads P (get >>= f) R :=
  readAs blind fun d c holds => next d c holds.2

theorem refuses (h : Refuses m) : Leads P m Q := by
  intro c _
  obtain ⟨⟨f, ordinary, failed⟩, same⟩ := h c
  refine ⟨.of_same (fun codes => ?_) ?_, fun a c' run => ?_⟩
  · rw [same, failed]
  · rw [failed]
    exact .error ordinary
  · cases failed.symm.trans run

theorem ite {p : Prop} [Decidable p] {m m' : CompileM α} (yes : p → Leads P m Q)
    (no : ¬p → Leads P m' Q) : Leads P (if p then m else m') Q := by
  split
  · exact yes ‹_›
  · exact no ‹_›

/-- Go on unless there is a reason to fail. -/
theorem guarded {p : Prop} [Decidable p] {m : CompileM β} {f : β → CompileM α} {m' : CompileM α}
    (stop : Refuses m) (rest : ¬p → Leads P m' Q) :
    Leads P (if p then m >>= f else m') Q := ite (fun _ => refuses (stop.bind f)) rest

theorem mono (h : Leads P m Q) (before : ∀ c, P' c → P c) (after : ∀ a c, Q a c → Q' a c) :
    Leads P' m Q' :=
  fun c holds => ⟨(h c (before c holds)).1, fun _ _ run => after _ _ (h.reaches (before c holds) run)⟩

theorem after (h : Leads P m Q) (after : ∀ a c, Q a c → Q' a c) : Leads P m Q' :=
  h.mono (fun _ => id) after

theorem before (h : Leads P m Q) (before : ∀ c, P' c → P c) : Leads P' m Q :=
  h.mono before fun _ _ => id

/-- A fact that is about no compiler may be used before a step. -/
theorem given {p : Prop} (h : p → Leads P m Q) : Leads (fun c => p ∧ P c) m Q :=
  fun c holds => h holds.1 c holds.2

theorem some {ι : Sort*} {P : ι → Compiler → Prop} (h : ∀ i, Leads (P i) m Q) :
    Leads (fun c => ∃ i, P i c) m Q :=
  fun c ⟨i, holds⟩ => h i c holds

theorem modify {g : Compiler → Compiler} {Q : Unit → Compiler → Prop}
    (blind : ∀ c codes, g (c.over codes) = (g c).over codes) (h : ∀ c, P c → Q () (g c)) :
    Leads P (modify g) Q := by
  refine fun c before => ⟨.of_same (fun codes => congrArg (Prod.mk _) (blind c codes)) (.ok _),
    fun a c' run => ?_⟩
  cases run
  exact h c before

/-- Turns keep what each of them keeps, and the last one leads on. -/
theorem repeatTurns {I : σ → Compiler → Prop} {turn : σ → CompileM (Turn σ β)}
    (h : ∀ s, Leads (I s) (turn s) (AfterTurn I R)) (s : σ) :
    Leads (I s) (CompileM.repeatTurns s turn) R := by
  have taken : ∀ bound s, Leads (I s) (turns turn bound s) R := by
    intro bound
    induction bound with
    | zero => exact fun _ => .refuses limit_refuses
    | succ bound ih =>
      refine fun s => (h s).bind fun r => ?_
      cases r with
      | again s' => exact ih s'
      | done b => exact .pure fun _ => id
  exact .read (fun _ _ => rfl) fun _ => taken _ s

end Leads

/-! ## Steps that only read -/

/-- A step that changes nothing but its place among the tokens and the names made up so far. If it
fails, its fault is no signal. -/
def Quiet (m : CompileM α) : Prop := ∀ c, Except.Ordinary (m c).1 ∧
  ∃ cursor count, cursor.tokens = c.cursor.tokens ∧ ∀ codes,
    m (c.over codes) = ((m c).1, (c.over codes).moved cursor count)

namespace Quiet

variable {m : CompileM α} {f : α → CompileM β}

theorem of_eq (h : ∀ c codes, m (c.over codes) = ((m c).1, c.over codes))
    (ordinary : ∀ c, Except.Ordinary (m c).1) : Quiet m :=
  fun c => ⟨ordinary c, c.cursor, c.tempCounter, rfl, h c⟩

theorem ordinary (h : Quiet m) (c : Compiler) : Except.Ordinary (m c).1 := (h c).1

theorem moves (h : Quiet m) (c : Compiler) : ∃ cursor count, (m c).2 = c.moved cursor count ∧
    ∀ codes, m (c.over codes) = ((m c).1, (m c).2.over codes) := by
  obtain ⟨-, cursor, count, -, same⟩ := h c
  have here : (m c).2 = c.moved cursor count := congrArg Prod.snd (same c.codes)
  refine ⟨cursor, count, here, fun codes => ?_⟩
  rw [same, here]
  rfl

/-- The tokens stay. -/
theorem tokens (h : Quiet m) (c : Compiler) : (m c).2.cursor.tokens = c.cursor.tokens := by
  obtain ⟨-, cursor, count, tokens, same⟩ := h c
  have here : (m c).2 = c.moved cursor count := congrArg Prod.snd (same c.codes)
  rw [here]
  exact tokens

theorem pure (a : α) : Quiet (Pure.pure a) := .of_eq (fun _ _ => rfl) fun _ => .ok _

theorem bind (hm : Quiet m) (hf : ∀ a, Quiet (f a)) : Quiet (m >>= f) := by
  intro c
  obtain ⟨ordinary, cursor, count, tokens, first⟩ := hm c
  have here : m c = ((m c).1, c.moved cursor count) := first c.codes
  rcases ran : (m c).1 with f | a <;> simp only [ran] at first here ordinary
  · rw [bind_of_error here]
    refine ⟨.error (ordinary f rfl), cursor, count, tokens, fun codes => ?_⟩
    rw [bind_of_error (first codes)]
  · obtain ⟨ordinary', cursor', count', tokens', second⟩ := hf a (c.moved cursor count)
    rw [bind_of_ok here]
    refine ⟨ordinary', cursor', count', tokens'.trans tokens, fun codes => ?_⟩
    rw [bind_of_ok (first codes)]
    exact second codes

/-- Looking at the compiler, but not at its finished units. -/
theorem read {f : Compiler → CompileM α} (blind : ∀ c codes, f (c.over codes) = f c)
    (h : ∀ c, Quiet (f c)) : Quiet (get >>= f) := by
  intro c
  obtain ⟨ordinary, cursor, count, tokens, same⟩ := h c c
  refine ⟨ordinary, cursor, count, tokens, fun codes => ?_⟩
  exact (congrFun (blind c codes) _).trans (same codes)

theorem ite {p : Prop} [Decidable p] {m m' : CompileM α} (yes : Quiet m) (no : Quiet m') :
    Quiet (if p then m else m') := by
  split
  · exact yes
  · exact no

theorem refuses (h : Refuses m) : Quiet m := by
  refine .of_eq (fun c => (h c).2) fun c => ?_
  obtain ⟨⟨f, ordinary, failed⟩, -⟩ := h c
  rw [failed]
  exact .error ordinary

/-- Go on unless there is a reason to fail. -/
theorem guarded {p : Prop} [Decidable p] {m : CompileM β} {f : β → CompileM α} {m' : CompileM α}
    (stop : Refuses m) (rest : Quiet m') : Quiet (if p then m >>= f else m') :=
  .ite (.refuses (stop.bind f)) rest

/-- Go on behind a step that is taken or not. -/
theorem optional {p : Prop} [Decidable p] {m : CompileM Unit} {f : Unit → CompileM α}
    (hm : Quiet m) (hf : ∀ u, Quiet (f u)) : Quiet (if p then m >>= f else f ()) :=
  .ite (hm.bind hf) (hf ())

theorem repeatTurns {turn : σ → CompileM (Turn σ β)} (h : ∀ s, Quiet (turn s)) (s : σ) :
    Quiet (CompileM.repeatTurns s turn) := by
  have taken : ∀ bound s, Quiet (turns turn bound s) := by
    intro bound
    induction bound with
    | zero => exact fun _ => .refuses limit_refuses
    | succ bound ih =>
      refine fun s => (h s).bind fun r => ?_
      cases r with
      | again s' => exact ih s'
      | done b => exact .pure b
  exact .read (fun _ _ => rfl) fun _ => taken _ s

end Quiet

/-- Before a failure it does not matter where a step that reads leads. -/
theorem Leads.of_quiet {P : Compiler → Prop} {m : CompileM α} (h : Quiet m) :
    Leads P m fun _ _ => True := by
  intro c _
  obtain ⟨-, -, -, blind⟩ := h.moves c
  exact ⟨.of_same blind (h.ordinary c), fun _ _ _ => trivial⟩

/-! ## Tokens -/

theorem moveCursor_quiet {f : Token.Cursor → Token.Cursor} (same : ∀ c, (f c).tokens = c.tokens) :
    Quiet (moveCursor f) :=
  fun c => ⟨.ok _, f c.cursor, c.tempCounter, same c.cursor, fun _ => rfl⟩

theorem skip_quiet : Quiet (moveCursor Token.Cursor.skip) :=
  moveCursor_quiet fun c => by unfold Token.Cursor.skip; split <;> rfl

theorem current_quiet : Quiet current := .of_eq (fun _ _ => rfl) fun _ => .ok _

theorem peek_quiet (n : Nat) : Quiet (peek n) := .of_eq (fun _ _ => rfl) fun _ => .ok _

theorem next_quiet : Quiet next :=
  current_quiet.bind fun _ => skip_quiet.bind fun _ => .pure _

theorem back_quiet (n : Nat) : Quiet (back n) := moveCursor_quiet fun _ => rfl

theorem atEnd_quiet : Quiet atEnd := .of_eq (fun _ _ => rfl) fun _ => .ok _

theorem isNext_quiet (text : String) : Quiet (isNext text) := .of_eq (fun _ _ => rfl) fun _ => .ok _

theorem isAnyNext_quiet (texts : List String) : Quiet (isAnyNext texts) := .of_eq (fun _ _ => rfl) fun _ => .ok _

theorem sameLine_quiet : Quiet sameLine := .of_eq (fun _ _ => rfl) fun _ => .ok _

theorem turnBound_quiet : Quiet turnBound := .of_eq (fun _ _ => rfl) fun _ => .ok _

theorem spell_quiet (t : Token) : Quiet (spell t) := .of_eq (fun _ _ => rfl) fun _ => .ok _

theorem accept_quiet (text : String) : Quiet (accept text) :=
  (isNext_quiet text).bind fun _ => .ite (skip_quiet.bind fun _ => .pure _) (.pure _)

theorem expect_quiet (text : String) : Quiet (expect text) :=
  (accept_quiet text).bind fun _ => .ite (.refuses (fail_refuses _ (by nofun))) (.pure _)

theorem identifier_quiet : Quiet identifier := by
  refine current_quiet.bind fun t => ?_
  split
  · exact skip_quiet.bind fun _ => spell_quiet t
  all_goals exact .refuses (fail_refuses _ (by nofun))

theorem atStatementEnd_quiet : Quiet atStatementEnd :=
  atEnd_quiet.bind fun _ => .ite (.pure _) <| (isAnyNext_quiet _).bind fun _ =>
    .ite (.pure _) <| sameLine_quiet.bind fun _ => .pure _

theorem tempName_quiet (stem : String) : Quiet (tempName stem) :=
  fun c => ⟨.ok _, c.cursor, c.tempCounter + 1, rfl, fun _ => rfl⟩

theorem isDeclaredHere_quiet (name : String) : Quiet (isDeclaredHere name) := .of_eq (fun _ _ => rfl) fun _ => .ok _

theorem atTopLevel_quiet : Quiet atTopLevel := .of_eq (fun _ _ => rfl) fun _ => .ok _

/-! ## Types -/

theorem skipBalanced_quiet (opening closing : String) : Quiet (skipBalanced opening closing) :=
  (expect_quiet _).bind fun _ => .repeatTurns (fun _ =>
    .ite (.pure _) <| atEnd_quiet.bind fun _ => .guarded (fail_refuses _ (by nofun)) <|
      next_quiet.bind fun _ => .ite (.pure _) (.ite (.pure _) (.pure _))) _

section

variable {type : CompileM Ty}

theorem skipSignature_quiet (h : Quiet type) : Quiet (skipSignature type) :=
  (skipBalanced_quiet _ _).bind fun _ => sameLine_quiet.bind fun _ => .ite (.pure _) <|
    (isAnyNext_quiet _).bind fun _ => .ite (.pure _) <| (isNext_quiet _).bind fun _ =>
      .ite (skipBalanced_quiet _ _) (h.bind fun _ => .pure _)

theorem nameList_quiet : Quiet nameList :=
  identifier_quiet.bind fun _ => .repeatTurns (fun _ => (accept_quiet _).bind fun _ =>
    .ite (identifier_quiet.bind fun _ => .pure _) (.pure _)) _

theorem addFields_quiet (t : Ty) (names : List String) (fields : List (String × Ty)) :
    Quiet (addFields t names fields) := by
  induction names generalizing fields with
  | nil => exact .pure _
  | cons name rest ih => exact .ite (.refuses (failAbout_refuses _ _ (by nofun))) (ih _)

theorem structFields_quiet (h : Quiet type) : Quiet (structFields type) :=
  (expect_quiet _).bind fun _ => .repeatTurns (fun fields => (accept_quiet _).bind fun _ =>
    .ite (.pure _) <| (accept_quiet _).bind fun _ => .ite (.pure _) <|
      atEnd_quiet.bind fun _ => .guarded (fail_refuses _ (by nofun)) <| nameList_quiet.bind fun names =>
        h.bind fun t => (addFields_quiet t names fields).bind fun _ => .pure _) _

theorem namedType_quiet (name : String) : Quiet (namedType name) := by
  have unknown : Quiet (back 1 >>= fun _ => fail .invalidTypeSpec : CompileM Ty) :=
    (back_quiet 1).bind fun _ => .refuses (fail_refuses _ (by nofun))
  unfold namedType
  refine (isNext_quiet _).bind fun _ => .ite (skip_quiet.bind fun _ => next_quiet.bind fun t => ?_) ?_
  · split
    · exact .pure _
    · exact .pure _
    · exact unknown
  · split
    · exact .pure _
    · refine .read (fun _ _ => rfl) fun c => ?_
      split
      · exact .pure _
      · exact unknown

theorem typeWith_quiet (h : Quiet type) : Quiet (typeWith type) := by
  refine current_quiet.bind fun t => ?_
  have skip : ∀ {α : Type} {m : CompileM α}, Quiet m →
      Quiet (moveCursor Token.Cursor.skip >>= fun _ => m) :=
    fun hm => skip_quiet.bind fun _ => hm
  refine .ite (skip <| (expect_quiet _).bind fun _ => h.bind fun _ => .pure _) ?_
  refine .ite (skip <| h.bind fun _ => .pure _) ?_
  refine .ite (skip <| (expect_quiet _).bind fun _ => h.bind fun _ =>
    (expect_quiet _).bind fun _ => h.bind fun _ => .pure _) ?_
  refine .ite (skip <| h.bind fun _ => .pure _) ?_
  refine .ite (skip <| (expect_quiet _).bind fun _ => (expect_quiet _).bind fun _ => .pure _) ?_
  refine .ite (skip <| (structFields_quiet h).bind fun _ => .pure _) ?_
  refine .ite (skip <| (skipSignature_quiet h).bind fun _ => .pure _) ?_
  exact .ite (.refuses (fail_refuses _ (by nofun))) <|
    (spell_quiet t).bind fun name => skip (namedType_quiet name)

end

theorem typeTo_quiet (depth : Nat) : Quiet (typeTo depth) := by
  induction depth with
  | zero => exact .refuses limit_refuses
  | succ depth ih => exact typeWith_quiet ih

theorem parseType_quiet : Quiet parseType := turnBound_quiet.bind fun _ => typeTo_quiet _

theorem typeUnless_quiet (absent : String) : Quiet (typeUnless absent) :=
  (isNext_quiet _).bind fun _ => .ite (.pure _) (parseType_quiet.bind fun _ => .pure _)

/-! ## Signatures -/

theorem parameterEntry_quiet (list : ParameterList) : Quiet (parameterEntry list) :=
  identifier_quiet.bind fun _ => (isAnyNext_quiet _).bind fun _ => .ite (.pure _) <|
    (accept_quiet _).bind fun _ => parseType_quiet.bind fun _ => .pure _

theorem parameterList_quiet : Quiet parameterList :=
  (expect_quiet _).bind fun _ => .repeatTurns (fun list => (accept_quiet _).bind fun _ =>
    .ite (.pure _) <| atEnd_quiet.bind fun _ => .guarded (fail_refuses _ (by nofun)) <|
      .optional (expect_quiet _) fun _ => .guarded (failAbout_refuses _ _ (by nofun)) <|
        (parameterEntry_quiet list).bind fun _ => .pure _) _

theorem startsNamedResult_quiet : Quiet startsNamedResult :=
  (peek_quiet 2).bind fun _ => current_quiet.bind fun _ => .pure _

theorem resultList_quiet : Quiet resultList := by
  refine sameLine_quiet.bind fun _ => .ite (.pure _) <| (isNext_quiet _).bind fun _ =>
    .ite (.pure _) <| (accept_quiet _).bind fun _ =>
      .ite (parseType_quiet.bind fun _ => .pure _) <| .bind (.repeatTurns (fun list => ?_) _) ?_
  · have entry : ∀ names, Quiet (do
        let t ← parseType
        Pure.pure (Turn.again (list.1 ++ [t], names)) : CompileM (Turn (List Ty × List String)
          (List Ty × List String))) := fun _ => parseType_quiet.bind fun _ => .pure _
    exact (accept_quiet _).bind fun _ => .ite (.pure _) <| atEnd_quiet.bind fun _ =>
      .guarded (fail_refuses _ (by nofun)) <| .optional (expect_quiet _) fun _ =>
        startsNamedResult_quiet.bind fun _ =>
          .ite (identifier_quiet.bind fun _ => .bind (.pure _) entry) (.bind (.pure _) entry)
  · exact fun list => .guarded (failAbout_refuses _ _ (by nofun)) (.pure _)

theorem signature_quiet : Quiet signature :=
  parameterList_quiet.bind fun _ => resultList_quiet.bind fun _ => .pure _

theorem receiverBinding_quiet : Quiet receiverBinding :=
  (accept_quiet _).bind fun _ => .ite (identifier_quiet.bind fun _ => .pure _) (.pure _)

theorem startsMethod_quiet : Quiet startsMethod := .of_eq (fun _ _ => rfl) fun _ => .ok _

end CompileM

end StackScript
