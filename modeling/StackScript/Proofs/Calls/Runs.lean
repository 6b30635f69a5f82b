import StackScript.Proofs.Calls.Return

/-!
# Runs of a context

What a context can come to. `Moves` holds everything that can become of it: steps, faults, answers
that it waited for, and changes from outside. The world and the store may be any at every move, so
that whatever runs beside the context is covered; `run_runs` says that running makes such moves
only.

Main statement: `calls_return_to_callers`. In every context that has come about by moves from a
fresh one the frames are in order, a return always finds its frame, and the caller goes on exactly
where it was, its values followed by the results.
-/
namespace StackScript

namespace Context

open Exec

/-! ## Moves -/

/-- What can become of a context. The world and the store may be any at every move, so that what
runs beside the context is covered: goroutines, comparisons of a sort, evaluated sources. -/
inductive Moves : Context → Context → Prop
  | step {c c' : Context} {w w' : World} {s s' : Store} {p : Progress}
      (h : Exec.step c w s = (((.ok p, c'), w'), s')) : Moves c c'
  /-- A step has failed, and the fault is caught or ends the run. -/
  | fault {c c' : Context} {w w' : World} {s s' : Store} {f : Fault}
      (h : Exec.step c w s = (((.error f, c'), w'), s')) : Moves c (c'.handle f s').2.1
  /-- The machine has done what a builtin asked for. -/
  | answer {c c' : Context} {w w' : World} {s s' : Store} {call : PendingCall}
      {result : Except Fault Value}
      (h : Exec.complete call result c w s = (((.ok (), c'), w'), s')) : Moves c c'
  | refusal {c c' : Context} {w w' : World} {s s' : Store} {call : PendingCall}
      {result : Except Fault Value} {f : Fault}
      (h : Exec.complete call result c w s = (((.error f, c'), w'), s')) :
      Moves c (c'.handle f s').2.1
  /-- Started, paused or ended, sent to another address, or given other breakpoints. -/
  | outside (c : Context) (pc : Nat) (state : ContextState) (debugger : Debugger) :
      Moves c { c with pc := pc, state := state, debugger := debugger }

/-- Moves one after the other, each to a context of some sort. -/
inductive Runs (p : Context → Prop) (c : Context) : Context → Prop
  | refl : Runs p c c
  | move {c₁ c₂ : Context} (before : Runs p c c₁) (next : Moves c₁ c₂) (holds : p c₂) : Runs p c c₂

/-- Nothing that can become of a context breaks the order of its frames. -/
theorem Moves.goesOn {places : List Nat} {c c' : Context} (m : Moves c c') (h : FramedAt places c) :
    GoesOn places c c' := by
  have stepped {r : Except Fault Progress} {c₁ : Context} {w w' : World} {s s' : Store}
      (e : Exec.step c w s = (((r, c₁), w'), s')) : GoesOn places c c₁ := by
    have := Exec.step_goesOn h w s
    rwa [Exec.after, e] at this
  have completed {call : PendingCall} {result : Except Fault Value} {r : Except Fault Unit}
      {c₁ : Context} {w w' : World} {s s' : Store}
      (e : Exec.complete call result c w s = (((r, c₁), w'), s')) : GoesOn places c c₁ :=
    h.goesOn (Exec.Contained.keeps (Exec.contained_rules.complete _ _) e)
  cases m with
  | step e => exact stepped e
  | fault e => exact (stepped e).handle _ _
  | answer e => exact completed e
  | refusal e => exact (completed e).handle _ _
  | outside => exact h.goesOn (.of_eq rfl rfl rfl rfl)

theorem Runs.trans {p : Context → Prop} {c c' c'' : Context} (r : Runs p c c') (r' : Runs p c' c'') :
    Runs p c c'' := by
  induction r' with
  | refl => exact r
  | move _ next holds ih => exact ih.move next holds

/-- Running a context makes moves only. -/
theorem run_runs {signal : Signal} {left : Nat} {c c' : Context} {w w' : World} {s s' : Store}
    (steps : Nat) (h : run steps c w s = (signal, left, c', w', s')) :
    Runs (fun _ => True) c c' := by
  induction steps generalizing c w s with
  | zero =>
    cases h
    exact .refl
  | succ steps ih =>
    unfold run at h
    split at h
    · rename_i stepped
      exact .trans (.move .refl (.step stepped) trivial) (ih h)
    · rename_i stepped
      cases h
      have stepped' := Runs.move (p := fun _ => True) .refl (.step stepped) trivial
      exact stepped'.move (.outside _ _ _ _) trivial
    · rename_i stepped
      cases h
      exact .move .refl (.step stepped) trivial
    · rename_i f c₁ w₁ s₁ stepped
      have failed := Runs.move (p := fun _ => True) .refl (.fault stepped) trivial
      split at h
      · rename_i handled
        rw [handled] at failed
        exact failed.trans (ih h)
      · rename_i handled
        rw [handled] at failed
        cases h
        exact failed

theorem Runs.framed {p : Context → Prop} {c c' : Context} (r : Runs p c c') (h : c.Framed) :
    c'.Framed := by
  induction r with
  | refl => exact h
  | move _ next _ ih =>
    obtain ⟨places, framed⟩ := ih
    obtain ⟨places', framed', -⟩ := next.goesOn framed
    exact ⟨places', framed'⟩

/-! ## From a call to its return -/

/-- `c` is in a call whose frame, put at `place`, has those at `places` below it, and all that lies
no higher than the frame is as it was in `c₁`. -/
def InCall (place : Nat) (places : List Nat) (c₁ c : Context) : Prop :=
  ∃ inner, FramedAt inner c ∧ place :: places <:+ inner ∧ ∀ i ≤ place, c.stack[i]? = c₁.stack[i]?

theorem InCall.moves {place : Nat} {places : List Nat} {c₁ c c' : Context}
    (h : InCall place places c₁ c) (m : Moves c c') (deep : places.length < c'.depth) :
    InCall place places c₁ c' := by
  obtain ⟨inner, framed, active, same⟩ := h
  obtain ⟨inner', framed', link, same'⟩ := m.goesOn framed
  have active' : place :: places <:+ inner' := by
    rcases link with up | down
    · exact active.trans up
    · refine List.suffix_of_suffix_length_le active down ?_
      rw [framed'.depth]
      exact deep
  refine ⟨inner', framed', active', fun i hi => (same' place ?_ ?_ i hi).trans (same i hi)⟩
  · exact active.subset (by simp)
  · exact active'.subset (by simp)

theorem InCall.runs {place : Nat} {places : List Nat} {c₁ c c' : Context}
    (h : InCall place places c₁ c) (r : Runs (places.length < ·.depth) c c') :
    InCall place places c₁ c' := by
  induction r with
  | refl => exact h
  | move _ next deep ih => exact ih.moves next deep

/-- At the end of a call all that lies below its frame is as it was before. -/
theorem InCall.cut {place : Nat} {places : List Nat} {c₁ c : Context} (h : InCall place places c₁ c)
    (last : c.depth = places.length + 1) (high : place ≤ c₁.stack.size) :
    c.fp = place ∧ c.stack[place]? = c₁.stack[place]? ∧
      c.stack.shrink place = c₁.stack.shrink place := by
  obtain ⟨inner, framed, active, same⟩ := h
  have length : inner.length = (place :: places).length := framed.depth.trans last
  cases active.eq_of_length length.symm
  have fp : c.fp = place := framed.chain.head.symm
  have inside : place < c.stack.size := by
    obtain ⟨f, here, -, -⟩ := framed.chain.cons
    exact fp ▸ (Array.getElem?_eq_some_iff.1 here).1
  refine ⟨fp, same place (Nat.le_refl _), Array.ext ?_ fun i hi hi' => ?_⟩
  · simp only [Array.size_shrink]
    omega
  · simp only [Array.size_shrink] at hi hi'
    have below := same i (by omega)
    rw [Array.getElem?_eq_getElem (by omega), Array.getElem?_eq_getElem (by omega)] at below
    simpa [Array.shrink_eq_take] using below

/-- `c'` goes on after a call that `c` has made: in the caller's code behind the call, with the
caller's names, module and line, and with `values` on the stack. -/
structure GoesOnAfter (c c' : Context) (values : Array Value) : Prop where
  code : c'.code = c.code
  pc : c'.pc = c.pc + 1
  fp : c'.fp = c.fp
  depth : c'.depth = c.depth
  scope : c'.scope = c.scope
  moduleName : c'.moduleName = c.moduleName
  line : c'.line = c.line
  stack : c'.stack = values

/-- The next instruction of `c` is a call, which has entered a function, and whatever that function
does, its return leads to what comes behind the call. -/
def Resumes (c : Context) (s : Store) (entered : Context) : Prop :=
  ∃ operand below code captured args flags,
    (s.code c.code).instructions[c.pc]? = some ⟨.call, operand⟩ ∧
    Site operand below (.function code captured) args flags c ∧
    ∀ {last returned : Context} {w w' : World} {s s' : Store} {p : Progress},
      Runs (c.depth < ·.depth) entered last → step last w s = (((.ok p, returned), w'), s') →
      returned.depth = c.depth → ∃ vs results, vs <:+ last.stack.toList ∧
        Results vs flags.multi results ∧ GoesOnAfter c returned (below ++ results)

theorem FramedAt.resumes {places : List Nat} {c c₁ : Context} {w w' : World} {s s' : Store}
    {p : Progress} (framed : FramedAt places c)
    (called : step c w s = (((.ok p, c₁), w'), s')) (deeper : c₁.depth = c.depth + 1) :
    Resumes c s c₁ := by
  have depth : places.length = c.depth := framed.depth
  rcases step_depth framed called with same | ⟨_, _, _, less⟩ | ⟨operand, below, code, captured,
    args, flags, receivers, fetched, site, keeps, entered⟩
  · omega
  · omega
  refine ⟨operand, below, code, captured, args, flags, fetched, site, ?_⟩
  intro c₂ c₃ w₂ w₃ s₂ s₃ p₂ r left back
  have framed₁ : FramedAt (below.size :: places) c₁ :=
    ((framed.keeps keeps).1.call entered.stack rfl entered.fp entered.depth entered.tries).1
  have inCall : InCall below.size places c₁ c₂ := by
    rw [← depth] at r
    exact InCall.runs ⟨_, framed₁, List.suffix_refl _, fun _ _ => rfl⟩ r
  obtain ⟨inner, framed₂, active, -⟩ := id inCall
  have deep : places.length + 1 ≤ c₂.depth := framed₂.depth ▸ active.length_le
  rcases step_depth framed₂ left with same | ⟨pc, count, left, less⟩ | ⟨_, _, _, _, _, _, _, _, _, _,
    entered⟩
  · omega
  · have size : below.size ≤ c₁.stack.size := by simp [entered.stack]
    obtain ⟨fp, frame, cut⟩ := inCall.cut (by omega) size
    rw [← fp, entered.stack, fp, Array.getElem?_push_size, ← fp] at frame
    rw [entered.stack, Array.shrink_eq_take, Array.take_eq_extract] at cut
    obtain ⟨vs, results, top, shape, rfl⟩ := leave_ok (c := { c₂ with pc := pc }) (by simp; omega)
      frame left
    refine ⟨vs, results, top, shape, rfl, rfl, rfl, back, rfl, rfl, rfl, ?_⟩
    simp [fp, cut]
  · have := entered.depth
    simp only at this
    omega

/-- In every context that has come about from a fresh one, for any code, the frames are in order, a
return finds its frame, and a call that enters a function is followed, when the function returns, by
what comes behind the call. -/
theorem calls_return_to_callers {s₀ : Store} {level : Strictness} {code : CodeRef}
    {scope : TableRef} {c : Context} (r : Runs (fun _ => True) (new s₀ level code scope) c) :
    c.Framed ∧
    (∀ count w s, (leave count c w s).1.1.1 ≠ .error (.about .stackUnderflow "call frame")) ∧
    ∀ {c₁ : Context} {w w' : World} {s s' : Store} {p : Progress},
      step c w s = (((.ok p, c₁), w'), s') → c₁.depth = c.depth + 1 → Resumes c s c₁ := by
  obtain ⟨places, framed⟩ := r.framed ⟨[], framed_new s₀ level code scope⟩
  refine ⟨⟨places, framed⟩, leave_finds framed, ?_⟩
  intro c₁ w w' s s' p called deeper
  exact framed.resumes called deeper

/-- A unit that calls the next one, which returns a number. -/
def callingStore : Store :=
  { codes := #[
      { name := "main"
        instructions := #[⟨.push, .value (.function ⟨1⟩ none)⟩, ⟨.call, .int 0⟩] },
      { name := "seven", instructions := #[⟨.push, .int 7⟩, ⟨.leave, .int 1⟩] }]
    tables := #[{ name := "main" }] }

/-- A context and the store after some steps. -/
def afterSteps : Nat → Context × Store
  | 0 => (new callingStore .strict ⟨0⟩ ⟨0⟩, callingStore)
  | n + 1 =>
    let r := step (afterSteps n).1 {} (afterSteps n).2
    (r.1.1.2, r.2)

/-- Four steps go well, of which the second is the call and the fourth the return. -/
theorem afterSteps_goesOn (n : Nat) (h : n < 4) :
    step (afterSteps n).1 {} (afterSteps n).2 =
      (((.ok .goesOn, (afterSteps (n + 1)).1), {}), (afterSteps (n + 1)).2) := by
  match n, h with
  | 0, _ | 1, _ | 2, _ | 3, _ => rfl

theorem seven_returns : GoesOnAfter (afterSteps 1).1 (afterSteps 4).1 #[.int 7] := by
  have start : Runs (fun _ => True) (afterSteps 0).1 (afterSteps 1).1 :=
    .move .refl (.step (afterSteps_goesOn 0 (by decide))) trivial
  obtain ⟨_, _, resumes⟩ := calls_return_to_callers start
  obtain ⟨_, _, _, _, _, _, _, _, back⟩ := resumes (afterSteps_goesOn 1 (by decide)) rfl
  have inside : Runs ((afterSteps 1).1.depth < ·.depth) (afterSteps 2).1 (afterSteps 3).1 :=
    .move .refl (.step (afterSteps_goesOn 2 (by decide))) (by decide)
  obtain ⟨_, _, _, _, goesOn⟩ := back inside (afterSteps_goesOn 3 (by decide)) rfl
  rw [← goesOn.stack] at goesOn
  exact goesOn

end Context

end StackScript
