import Mathlib.Tactic.IntervalCases
import StackScript.Proofs.Debugging.Turns
import StackScript.Proofs.Sorting.Insertion

/-!
# Sorting by a comparator

A sort calls its comparator back. In a program every call is a context of its own, which may do
whatever it likes and let others go on meanwhile; what the sort does between two calls is the same
each time: it makes its next comparison, fails or delivers what was sorted. So when every call
returns, the sort ends. Outside code makes the calls one after another.

Main statements: `Thread.Sorts.of_asks` and `Thread.Fair.ends` (in a program),
`Machine.sortTo_ended` (outside) and `sort_stable`.
-/
namespace StackScript

open Relation (ReflTransGen)

/-! ## How a sort ends -/

namespace Sorting

/-- A sort has come to an end: the items are those of a new array, or a comparison has failed. -/
inductive Ended {σ : Type} (way : Way σ) (make : σ → ArrayObject → ArrayRef × σ) (o : Sorting)
    (a : σ) : List Comparison → Except Fault Value → σ → Prop
  | sorted {trace : List Comparison} {o' : Sorting} {b : σ} (made : Compared way o a trace o' b)
      (finished : o'.comparison? = none) :
      Ended way make o a trace (.ok (.array (make b { element := o'.element, items := o'.items }).1))
        (make b { element := o'.element, items := o'.items }).2
  | failed {trace : List Comparison} {o' : Sorting} {b c : σ} {x y : Value} {f : Fault}
      (made : Compared way o a trace o' b) (pair : o'.comparison? = some (x, y))
      (called : way o' b x y (.error f) c) : Ended way make o a trace (.error f) c

end Sorting

/-! ## Outside -/

namespace Machine

/-- Outside code calls the comparator. -/
def Compares : Sorting.Way Machine := fun o m x y result m' =>
  m.call o.less [x, y] none o.scope = (result, m')

/-- Add an array. -/
def withArray (m : Machine) (a : ArrayObject) : ArrayRef × Machine :=
  ((m.store.newArray a).1, { m with store := (m.store.newArray a).2 })

theorem sortTo_ended {less : Value} {scope : TableRef} {element : Ty} {items : Array Value}
    {start m : Machine} {trace : List Sorting.Comparison} {o : Sorting} (comparisons : Nat)
    (h : Sorting.Compared Compares (.start less scope element items) start trace o m)
    (enough : items.size * items.size < trace.length + comparisons) :
    ∃ more, Sorting.Ended Compares withArray (.start less scope element items) start more
      (sortTo comparisons o m).1 (sortTo comparisons o m).2 := by
  induction comparisons generalizing trace o m with
  | zero =>
    have few := h.count_le
    have : items.size * (items.size - 1) ≤ items.size * items.size :=
      Nat.mul_le_mul_left _ (Nat.sub_le _ _)
    omega
  | succ comparisons ih =>
    unfold sortTo
    split
    · next finished => exact ⟨trace, .sorted h finished⟩
    · next x y pair =>
      split
      · next v m' called => exact ih (h.next pair called) (by simp; omega)
      · next f m' called => exact ⟨trace, .failed h pair called⟩

end Machine

/-! ## In a program -/

namespace Thread

/-- Something happens: the thread makes a turn, or others change the world and the store. -/
def Happens (x y : Thread × World × Store) : Prop := Turned x y ∨ x.1 = y.1

/-- Something happens while some callers wait. -/
def HappensAbove (callers : List Caller) (x y : Thread × World × Store) : Prop :=
  Happens x y ∧ callers <:+ y.1.callers

variable (t : Thread) (call : PendingCall)

/-- The callers of a comparison that a sort asks for. -/
def waiting (o : Sorting) : List Caller := ⟨t.context, call, .comparison o⟩ :: t.callers

/-- A comparison begins in a context of its own. -/
def entered (o : Sorting) (a : World × Store) (x y : Value) : Thread × World × Store :=
  (t.enter call (.comparison o) (o.less.invoke [x, y] none o.scope a.1 a.2).1, a.1,
    (o.less.invoke [x, y] none o.scope a.1 a.2).2)

/-- What a context that has ended returns. -/
def returned (z : Thread × World × Store) : Except Fault Unit → Except Fault Value × World × Store
  | .error f => (.error f, z.2)
  | .ok () => ((z.1.context.results z.2.2).1, z.2.1, (z.1.context.results z.2.2).2)

/-- A thread calls the comparator: the call returns, after whatever has happened, or what is to be
called is no function. -/
inductive Compares (o : Sorting) (a : World × Store) (x y : Value) :
    Except Fault Value → World × Store → Prop
  | called {z : Thread × World × Store} {result : Except Fault Unit}
      (callable : o.less.isCallable = true)
      (ran : ReflTransGen (HappensAbove (t.waiting call o)) (t.entered call o a x y) z)
      (back : z.1.callers = t.waiting call o) (ended : z.1.signal = .ended result) :
      Compares o a x y (returned z result).1 (returned z result).2
  | refused (callable : o.less.isCallable = false) :
      Compares o a x y (.error (.about .invalidFunctionCall (o.less.typeName a.2))) a

/-- Add an array. -/
def withArray (a : World × Store) (object : ArrayObject) : ArrayRef × World × Store :=
  ((a.2.newArray object).1, a.1, (a.2.newArray object).2)

/-- What a sort does when it is its turn: it makes its next comparison, fails since what is to be
called is no function, or delivers what was sorted. -/
inductive GoesOn (o : Sorting) (a : World × Store) : Thread × World × Store → Prop
  | compares {x y : Value} (pair : o.comparison? = some (x, y)) (callable : o.less.isCallable = true) :
    GoesOn o a (t.entered call o a x y)
  | fails {x y : Value} (pair : o.comparison? = some (x, y)) (unfit : o.less.isCallable = false) :
    GoesOn o a
      (t.deliver call (.error (.about .invalidFunctionCall (o.less.typeName a.2))) a.1 a.2)
  | delivers (finished : o.comparison? = none) :
    GoesOn o a (t.deliver call
      (.ok (.array (withArray a { element := o.element, items := o.items }).1))
      (withArray a { element := o.element, items := o.items }).2.1
      (withArray a { element := o.element, items := o.items }).2.2)

/-- What becomes of a sort when the call of its comparator has returned: it fails as the call did,
or goes on by the result. -/
inductive Returns (o : Sorting) (result : Except Fault Value) (a : World × Store) :
    Thread × World × Store → Prop
  | fails {f : Fault} (failed : result = .error f) :
    Returns o result a (t.deliver call (.error f) a.1 a.2)
  | goesOn {v : Value} {z : Thread × World × Store} (answered : result = .ok v)
      (next : t.GoesOn call (o.compared v.isTruthy) a z) : Returns o result a z

/-- A thread that has been asked for a sort makes a comparison, or the sort is over, its result has
been delivered and the thread has gone on. -/
inductive Sorts (o : Sorting) (a : World × Store) : Thread × World × Store → Prop
  | comparing {trace : List Sorting.Comparison} {o' : Sorting} {b : World × Store} {x y : Value}
      {z : Thread × World × Store} (made : Sorting.Compared (t.Compares call) o a trace o' b)
      (pair : o'.comparison? = some (x, y)) (callable : o'.less.isCallable = true)
      (ran : ReflTransGen (HappensAbove (t.waiting call o')) (t.entered call o' b x y) z) :
      Sorts o a z
  | finished {trace : List Sorting.Comparison} {result : Except Fault Value} {b : World × Store}
      {z : Thread × World × Store} (ended : Sorting.Ended (t.Compares call) withArray o a trace result b)
      (further : ReflTransGen Happens (t.deliver call result b.1 b.2) z) : Sorts o a z

/-! ### Callers -/

variable (w : World) (s : Store)

theorem deliver_callers (result : Except Fault Value) :
    (t.deliver call result w s).1.callers = t.callers := by
  unfold deliver
  split <;> rfl

theorem sort_callers (o : Sorting) : t.callers <:+ (t.sort call o w s).1.callers := by
  unfold sort
  split
  · rw [deliver_callers]
  · split
    · exact List.suffix_cons _ _
    · rw [deliver_callers]

theorem await_callers (wait : Wait) : (t.await call wait w s).1.callers = t.callers := by
  unfold await
  split
  · exact deliver_callers ..
  · rfl

theorem serve_callers (answer : Answer) : t.callers <:+ (t.serve call answer w s).1.callers := by
  unfold serve
  split
  · rw [deliver_callers]
  · rw [await_callers]
  · exact sort_callers ..
  · split
    · exact List.suffix_cons _ _
    · rw [deliver_callers]

theorem leave_callers (caller : Caller) (callers : List Caller) (result : Except Fault Unit) :
    callers <:+ (t.leave caller callers result w s).1.callers := by
  unfold leave
  dsimp only
  split
  · rw [deliver_callers]
  · split
    · rw [deliver_callers]
    · split
      · exact sort_callers { context := caller.context, callers := callers } ..
      · rw [deliver_callers]

/-- A turn keeps the callers but for the return to the nearest one. -/
theorem turn_callers : t.callers <:+ (t.turn w s).1.callers ∨
    ∃ result caller callers, t.signal = .ended result ∧ t.callers = caller :: callers ∧
      t.turn w s = t.leave caller callers result w s := by
  rcases signal : t.signal with _ | ⟨call, wait⟩ | ⟨call, answer⟩ | result
  · rw [turn_runs signal]
    exact .inl List.suffix_rfl
  · rw [turn_blocked signal, await_callers]
    exact .inl List.suffix_rfl
  · rw [turn_asks signal]
    exact .inl (serve_callers ..)
  · cases behind : t.callers with
    | nil => exact .inl (List.nil_suffix)
    | cons caller callers => exact .inr ⟨result, caller, callers, rfl, rfl, turn_ended signal behind w s⟩

/-- What happens above some callers keeps them. -/
theorem callers_above {callers : List Caller} {x z : Thread × World × Store}
    (ran : ReflTransGen (HappensAbove callers) x z) (start : callers <:+ x.1.callers) :
    callers <:+ z.1.callers := by
  cases ran with
  | refl => exact start
  | tail _ last => exact last.2

/-- What happens above some callers keeps them until the last context above them has ended. -/
theorem above_of_happens {callers : List Caller} {x y : Thread × World × Store}
    (happens : Happens x y) (above : callers <:+ x.1.callers)
    (going : Turned x y → ¬(x.1.callers = callers ∧ ∃ result, x.1.signal = .ended result)) :
    callers <:+ y.1.callers := by
  rcases happens with turned | same
  · obtain kept | ⟨result, caller, others, ended, behind, leaves⟩ := turn_callers x.1 x.2.1 x.2.2
    · rw [← turned]
      exact above.trans kept
    · -- The callers that wait are all that there were, or the return keeps them.
      obtain same | among := List.suffix_cons_iff.1 (behind ▸ above)
      · exact absurd ⟨behind.trans same.symm, result, ended⟩ (going turned)
      · rw [← turned, leaves]
        exact among.trans (leave_callers ..)
  · rw [← same]
    exact above

/-! ### The way of a sort -/

section

variable {t call} {o o' : Sorting} {a b : World × Store} {trace : List Sorting.Comparison}
  {z z' : Thread × World × Store}

theorem GoesOn.of_sort (t : Thread) (call : PendingCall) (o : Sorting) (a : World × Store) :
    t.GoesOn call o a (t.sort call o a.1 a.2) := by
  unfold sort
  split
  · next none => exact .delivers none
  · next x y pair =>
    split
    · next callable => exact .compares pair callable
    · next unfit => exact .fails pair (Bool.eq_false_iff.2 unfit)

/-- A turn of a thread at which the context of a comparison has ended. -/
theorem Returns.of_back {result : Except Fault Unit} (back : z.1.callers = t.waiting call o)
    (ended : z.1.signal = .ended result) :
    t.Returns call o (returned z result).1 (returned z result).2 (z.1.turn z.2.1 z.2.2) := by
  rw [turn_ended ended back]
  unfold leave
  cases result with
  | error f => exact .fails rfl
  | ok =>
    dsimp only [returned]
    rcases z.1.context.results z.2.2 with ⟨f | v, s'⟩
    · exact .fails rfl
    · exact .goesOn rfl (.of_sort t call (o.compared v.isTruthy) (z.2.1, s'))

end

namespace Sorts

variable {t call} {o o' : Sorting} {a b : World × Store} {trace : List Sorting.Comparison}
  {z z' : Thread × World × Store}

/-- After some comparisons a sort makes the next one or is over. -/
theorem of_goesOn (made : Sorting.Compared (t.Compares call) o a trace o' b)
    (next : t.GoesOn call o' b z) : Sorts t call o a z := by
  cases next with
  | compares pair callable => exact .comparing made pair callable .refl
  | fails pair unfit => exact .finished (.failed made pair (.refused unfit)) .refl
  | delivers none => exact .finished (.sorted made none) .refl

/-- When the context of a comparison returns, the sort goes on by its result. -/
theorem of_returns {x y : Value} {result : Except Fault Value} {c : World × Store}
    (made : Sorting.Compared (t.Compares call) o a trace o' b) (pair : o'.comparison? = some (x, y))
    (called : t.Compares call o' b x y result c) (returns : t.Returns call o' result c z) :
    Sorts t call o a z := by
  cases returns with
  | fails failed =>
    rw [failed] at called
    exact .finished (.failed made pair called) .refl
  | goesOn answered next =>
    rw [answered] at called
    exact of_goesOn (made.next pair called) next

theorem happens (h : Sorts t call o a z) (happens : Happens z z') : Sorts t call o a z' := by
  cases h with
  | finished ended further => exact .finished ended (further.tail happens)
  | @comparing trace o' b x y _ made pair callable ran =>
    by_cases isBack : Turned z z' ∧ z.1.callers = t.waiting call o' ∧
        ∃ result, z.1.signal = .ended result
    · obtain ⟨turned, back, result, ended⟩ := isBack
      rw [← turned]
      exact of_returns made pair (.called callable ran back ended) (.of_back back ended)
    · have above := above_of_happens happens (callers_above ran List.suffix_rfl)
        fun turned back => isBack ⟨turned, back⟩
      exact .comparing made pair callable (ran.tail ⟨happens, above⟩)

/-- Whatever happens to a thread that asks for a sort, it still asks, is at that sort or has been
given its result. -/
theorem of_asks (asks : t.signal = .asks call (.sort o))
    (happened : ReflTransGen Happens (t, a) z) : z.1 = t ∨ ∃ b, Sorts t call o b z := by
  induction happened with
  | refl => exact .inl rfl
  | @tail x z _ next ih =>
    obtain rfl | ⟨b, sorts⟩ := ih
    · rcases next with turned | same
      · rw [Turned, turn_asks asks] at turned
        exact .inr ⟨x.2, turned ▸ of_goesOn .start (.of_sort _ _ _ _)⟩
      · exact .inl same.symm
    · exact .inr ⟨b, sorts.happens next⟩

end Sorts

/-! ### The end of a sort -/

/-- A run of a thread beside others in which it gets its turns. -/
structure Fair (run : Nat → Thread × World × Store) : Prop where
  happens : ∀ i, Happens (run i) (run (i + 1))
  turns : ∀ i, ∃ j ≥ i, Turned (run j) (run (j + 1))

/-- In a run every call of a comparator that begins returns. -/
def Answers (run : Nat → Thread × World × Store) : Prop :=
  ∀ i {o a x y}, run i = t.entered call o a x y →
    ∃ j ≥ i, (run j).1.callers = t.waiting call o ∧ ∃ result, (run j).1.signal = .ended result

namespace Fair

variable {t call} {run : Nat → Thread × World × Store} {o : Sorting} {a : World × Store}

/-- A thread stays what it is until its next turn. -/
theorem next_turn (h : Fair run) (i : Nat) :
    ∃ j ≥ i, (run j).1 = (run i).1 ∧ Turned (run j) (run (j + 1)) := by
  obtain ⟨j, later, turned⟩ := h.turns i
  obtain ⟨n, rfl⟩ := Nat.exists_eq_add_of_le later
  induction n generalizing i with
  | zero => exact ⟨i, Nat.le_refl i, rfl, turned⟩
  | succ n ih =>
    rcases h.happens i with now | same
    · exact ⟨i, Nat.le_refl i, rfl, now⟩
    · have further : i + 1 + n = i + (n + 1) := by omega
      obtain ⟨j, later, still, turned⟩ := ih (i + 1) (by omega) (further ▸ turned)
      exact ⟨j, by omega, still.trans same.symm, turned⟩

/-- The turn with which a call of the comparator returns. -/
theorem returns (h : Fair run) (answers : t.Answers call run) {i : Nat} {x y : Value}
    (begins : run i = t.entered call o a x y) :
    ∃ j, ReflTransGen (HappensAbove (t.waiting call o)) (t.entered call o a x y) (run j) ∧
      (run j).1.callers = t.waiting call o ∧ (∃ result, (run j).1.signal = .ended result) ∧
      Turned (run j) (run (j + 1)) := by
  let Back (j : Nat) : Prop := (run j).1.callers = t.waiting call o ∧
    ∃ result, (run j).1.signal = .ended result
  have back : ∃ n, Back (i + n) ∧ Turned (run (i + n)) (run (i + n + 1)) := by
    obtain ⟨j, later, callers, ended⟩ := answers i begins
    obtain ⟨k, after, same, turned⟩ := h.next_turn j
    obtain ⟨n, rfl⟩ := Nat.exists_eq_add_of_le (later.trans after)
    exact ⟨n, ⟨same ▸ callers, same ▸ ended⟩, turned⟩
  classical
  -- Up to the first such turn everything happens above the callers that wait.
  have ran : ∀ n ≤ Nat.find back,
      ReflTransGen (HappensAbove (t.waiting call o)) (t.entered call o a x y) (run (i + n)) := by
    intro n few
    induction n with
    | zero => rw [Nat.add_zero, begins]
    | succ n ih =>
      have before := ih (by omega)
      have going := Nat.find_min back few
      have above := above_of_happens (h.happens (i + n)) (callers_above before List.suffix_rfl)
        fun turned back => going ⟨back, turned⟩
      exact before.tail ⟨h.happens (i + n), above⟩
  obtain ⟨⟨callers, ended⟩, turned⟩ := Nat.find_spec back
  exact ⟨_, ran _ (Nat.le_refl _), callers, ended, turned⟩

/-- A sort that has made some comparisons ends after at most so many more. -/
theorem ends {less : Value} {scope : TableRef} {element : Ty} {items : Array Value}
    {trace : List Sorting.Comparison} {b : World × Store} (h : Fair run)
    (answers : t.Answers call run) (more : Nat)
    (made : Sorting.Compared (t.Compares call) (.start less scope element items) a trace o b)
    (enough : items.size * (items.size - 1) < 2 * (trace.length + more)) {i : Nat}
    (next : t.GoesOn call o b (run i)) :
    ∃ trace result c j, Sorting.Ended (t.Compares call) withArray (.start less scope element items) a
      trace result c ∧ run j = t.deliver call result c.1 c.2 := by
  induction more generalizing trace o b i with
  | zero =>
    have few := made.count_le
    omega
  | succ more ih =>
    generalize here : run i = z at next
    cases next with
    | delivers none => exact ⟨_, _, _, i, .sorted made none, here⟩
    | fails pair unfit => exact ⟨_, _, _, i, .failed made pair (.refused unfit), here⟩
    | compares pair callable =>
      obtain ⟨j, ran, back, ⟨result, ended⟩, turned⟩ := h.returns answers here
      have called := Compares.called callable ran back ended
      have returns := Returns.of_back back ended
      rw [show (run j).1.turn (run j).2.1 (run j).2.2 = run (j + 1) from turned] at returns
      generalize after : run (j + 1) = z at returns
      cases returns with
      | fails failed => exact ⟨_, _, _, j + 1, .failed made pair (failed ▸ called), after⟩
      | goesOn answered next =>
        refine ih (made.next pair (answered ▸ called)) ?_ (after ▸ next)
        rw [List.length_append, List.length_singleton]
        omega

end Fair

end Thread

/-! ## The builtin -/

/-- What becomes of sorting an array by a comparator. -/
structure SortsStably (r : ArrayRef) (less : Value) : Prop where
  /-- A program that calls the builtin asks for a sort of the items; nothing changes but that there
  is a new table. -/
  asked : ∀ receiver multi (c : Context) (w : World) (s : Store),
    Exec.callNative (.root .sort) [.array r, less] receiver multi c w s =
      (((.ok (some (⟨.root .sort, multi⟩, .sort (.start less (s.newBoundary c.scope "sort").1
        (s.array r).element (s.array r).items))), c), w), (s.newBoundary c.scope "sort").2)
  /-- Whatever happens then, its thread still asks, is at a comparison or has been given the
  result. -/
  inProgram : ∀ (t : Thread) call scope element items a z,
    t.signal = .asks call (.sort (.start less scope element items)) →
      ReflTransGen Thread.Happens (t, a) z →
        z.1 = t ∨ ∃ b, t.Sorts call (.start less scope element items) b z
  /-- At its turn a thread that asks makes the first comparison, fails or delivers. -/
  begins : ∀ (t : Thread) call o a, t.signal = .asks call (.sort o) →
    t.GoesOn call o a (t.turn a.1 a.2)
  /-- When the context of a comparison has ended, the sort fails as it did or goes on by what it
  returned. -/
  returns : ∀ (t : Thread) call o (z : Thread × World × Store) result,
    z.1.callers = t.waiting call o → z.1.signal = .ended result →
      t.Returns call o (Thread.returned z result).1 (Thread.returned z result).2
        (z.1.turn z.2.1 z.2.2)
  /-- If every call of the comparator returns, the sort ends and its result is delivered. -/
  ends : ∀ (t : Thread) call scope element items run,
    t.signal = .asks call (.sort (.start less scope element items)) → (run 0).1 = t →
      Thread.Fair run → t.Answers call run →
        ∃ a trace result b i, Sorting.Ended (t.Compares call) Thread.withArray
          (.start less scope element items) a trace result b ∧ run i = t.deliver call result b.1 b.2
  /-- Outside code that calls the builtin gets the result. -/
  outside : ∀ (m : Machine) caller receiver multiple,
    let opened := m.store.newBoundary caller "sort"
    let came := m.callBuiltin (.root .sort)
      { caller := caller, receiver := receiver, multiple := multiple, args := [.array r, less] }
    ∃ trace, Sorting.Ended Machine.Compares Machine.withArray
      (.start less opened.1 (m.store.array r).element (m.store.array r).items)
      { m with store := opened.2 } trace came.1 came.2
  /-- There are no more comparisons than pairs of items, all by the comparator. -/
  bounded : ∀ {σ : Type} {way : Sorting.Way σ} {scope element items a trace o b},
    Sorting.Compared way (.start less scope element items) a trace o b →
      2 * trace.length ≤ items.size * (items.size - 1) ∧ o.less = less
  /-- At any time the items are those of the array. -/
  permuted : ∀ {σ : Type} {way : Sorting.Way σ} {scope element items a trace o b},
    Sorting.Compared way (.start less scope element items) a trace o b →
      o.items.Perm items ∧ o.element = element
  /-- In the end they are sorted stably, if the comparator is a strict weak order of them. -/
  stable : ∀ {σ : Type} {way : Sorting.Way σ} {scope element items a trace o b},
    Sorting.Compared way (.start less scope element items) a trace o b → o.comparison? = none →
      ∀ lt, StrictWeak lt items.toList → (∀ made ∈ trace, made.isLess = lt made.left made.right) →
        Stable lt items.toList o.items.toList
  /-- All that a sort does by itself leaves the arrays as they are, but that it adds one. -/
  untouched :
    (∀ (s : Store) caller, (s.newBoundary caller "sort").2.arrays = s.arrays) ∧
    (∀ (t : Thread) call o a x y, (t.entered call o a x y).2.2.arrays = a.2.arrays) ∧
    (∀ z result, (Thread.returned z result).2.2.arrays = z.2.2.arrays) ∧
    (∀ a object, (Thread.withArray a object).2.2.arrays = a.2.arrays.push object) ∧
    ∀ m object, (Machine.withArray m object).2.store.arrays = m.store.arrays.push object

theorem results_arrays (c : Context) (s : Store) : (c.results s).2.arrays = s.arrays := by
  unfold Context.results
  split <;> rfl

/-- Sorting by a comparator either fails as the comparator does or makes a sorted copy, stably if
the comparator is a strict weak order. -/
theorem sort_stable (r : ArrayRef) (less : Value) : SortsStably r less where
  asked receiver multi c w s := rfl
  inProgram t call scope element items a z asks happened := Thread.Sorts.of_asks asks happened
  begins t call o a asks := by
    rw [Thread.turn_asks asks]
    exact .of_sort t call o a
  returns t call o z result back ended := .of_back back ended
  ends t call scope element items run asks here fair answers := by
    obtain ⟨i, -, same, turned⟩ := fair.next_turn 0
    have asked := asks
    rw [← here, ← same] at asked
    have next := Thread.GoesOn.of_sort t call (.start less scope element items) (run i).2
    rw [show t.sort call _ (run i).2.1 (run i).2.2 = run (i + 1) by
      rw [← turned, Thread.turn_asks asked, same, here]
      rfl] at next
    exact ⟨_, fair.ends answers (items.size * (items.size - 1) + 1) .start (by simp; omega) next⟩
  outside m caller receiver multiple := Machine.sortTo_ended _ .start <| by
    simp only [Sorting.start, List.length_nil, Nat.zero_add]
    exact Nat.lt_succ_self _
  bounded h := ⟨h.count_le, h.shape.less⟩
  permuted h := ⟨h.shape.perm, h.shape.element⟩
  stable h finished lt order pure := h.stable order pure finished
  untouched := by
    refine ⟨fun _ _ => rfl, fun _ _ _ _ _ _ => rfl, fun z result => ?_, fun _ _ => rfl, fun _ _ => rfl⟩
    cases result with
    | error => rfl
    | ok => exact results_arrays _ _

/-! ### A sort of two numbers -/

/-- Whether a number is less than another one. -/
def byNumber (x y : Value) : Bool := (x.asInt?.getD 0).toInt < (y.asInt?.getD 0).toInt

theorem byNumber_strictWeak (items : List Value) : StrictWeak byNumber items := by
  constructor
  · simp [byNumber]
  · intro x _ y _ z _ less further
    simp only [byNumber, decide_eq_true_eq] at *
    omega
  · intro x _ y _ z _ less
    simp only [byNumber, decide_eq_true_eq] at *
    omega

/-- A comparator that takes the less number first. -/
def lessCode : Code :=
  { name := "less"
    isSealed := true
    instructions := #[⟨.load, .name "_args"⟩, ⟨.push, .value (.int 0)⟩, ⟨.loadIndex, .none⟩,
      ⟨.load, .name "_args"⟩, ⟨.push, .value (.int 1)⟩, ⟨.loadIndex, .none⟩, ⟨.lessThan, .none⟩,
      ⟨.leave, .int 1⟩] }

/-- A sort of two numbers that stand the wrong way round. -/
def pairSort : Sorting := .start (.function ⟨0⟩ none) ⟨0⟩ .interface #[.int 2, .int 1]

/-- The call that waits for them. -/
def pairCall : PendingCall := ⟨.root .sort, false⟩

/-- A thread that asks for the sort. -/
def pairThread : Thread :=
  { context := { moduleName := "main", code := ⟨0⟩, scope := ⟨0⟩, strictness := .relaxed }
    signal := .asks pairCall (.sort pairSort) }

/-- What the thread has come to after some turns. -/
def pairRun : Nat → Thread × World × Store
  | 0 => (pairThread, {}, { codes := #[lessCode], tables := #[{ name := "root" }] })
  | n + 1 => (pairRun n).1.turn (pairRun n).2.1 (pairRun n).2.2

theorem pairRun_happens (n : Nat) : ReflTransGen Thread.Happens (pairRun 0) (pairRun n) := by
  induction n with
  | zero => exact .refl
  | succ n ih => exact ih.tail (.inl rfl)

theorem pairRun_fair : Thread.Fair pairRun where
  happens _ := .inl rfl
  turns n := ⟨n, Nat.le_refl n, rfl⟩

theorem pairRun_still (n : Nat) : pairRun (16 + n) = pairRun 16 := by
  induction n with
  | zero => rfl
  | succ n ih =>
    have still : pairRun 17 = pairRun 16 := rfl
    rw [← Nat.add_assoc, pairRun, ih]
    exact still

/-- The sort waits for its one comparison until that has ended. -/
theorem pairRun_callers (n : Nat) : (pairRun n).1.callers =
    if 1 ≤ n ∧ n ≤ 14 then pairThread.waiting pairCall pairSort else [] := by
  rcases Nat.lt_or_ge n 16 with early | late
  · interval_cases n <;> rfl
  · obtain ⟨n, rfl⟩ := Nat.exists_eq_add_of_le late
    rw [pairRun_still, if_neg (by omega)]
    rfl

theorem pairRun_answers : pairThread.Answers pairCall pairRun := by
  intro i o a x y begins
  have waits : (pairRun i).1.callers = pairThread.waiting pairCall o := by
    rw [begins]
    rfl
  rw [pairRun_callers] at waits
  split at waits
  · next among => exact ⟨14, among.2, by rw [pairRun_callers, ← waits]; rfl, _, rfl⟩
  · cases waits

theorem pairRun_above (n : Nat) (few : n < 14) :
    ReflTransGen (Thread.HappensAbove (pairThread.waiting pairCall pairSort)) (pairRun 1)
      (pairRun (n + 1)) := by
  induction n with
  | zero => exact .refl
  | succ n ih =>
    refine (ih (by omega)).tail ⟨.inl rfl, ?_⟩
    rw [pairRun_callers, if_pos (by omega)]

/-- The one comparison finds the numbers the wrong way round. -/
theorem pairRun_compared : Sorting.Compared (pairThread.Compares pairCall) pairSort (pairRun 0).2
    [⟨.int 1, .int 2, true⟩] (pairSort.compared true) (pairRun 14).2 := by
  have back : (pairRun 14).1.callers = pairThread.waiting pairCall pairSort := pairRun_callers 14
  have ended : (pairRun 14).1.signal = .ended (.ok ()) := rfl
  have called := Thread.Compares.called (a := (pairRun 0).2) rfl (pairRun_above 13 (by omega)) back
    ended
  exact .next (v := .bool true) .start rfl called

/-- The numbers of the array that a thread was given. -/
def givenNumbers (z : Thread × World × Store) : Option (List (Option Int64)) :=
  match z.1.signal, z.1.context.stack.back? with
  | .runs, some (.array r) => some ((z.2.2.array r).items.toList.map Value.asInt?)
  | _, _ => none

/-- The comparator is called once, returns, and the numbers are delivered the right way round. -/
theorem pair_sorted : givenNumbers (pairRun 15) = some [some 1, some 2] ∧
    (∃ b, pairThread.Sorts pairCall pairSort b (pairRun 15)) ∧
    (∃ a trace result b i, Sorting.Ended (pairThread.Compares pairCall) Thread.withArray pairSort a
      trace result b ∧ pairRun i = pairThread.deliver pairCall result b.1 b.2) ∧
    Stable byNumber pairSort.items.toList (pairSort.compared true).items.toList := by
  have sorts := sort_stable ⟨0⟩ (.function ⟨0⟩ none)
  have given : givenNumbers (pairRun 15) = some [some 1, some 2] := by decide +kernel
  refine ⟨given, ?_, ?_, ?_⟩
  · have came := sorts.inProgram pairThread pairCall _ _ _ _ _ rfl (pairRun_happens 15)
    refine came.resolve_left fun asks => ?_
    rw [givenNumbers, asks] at given
    cases given
  · exact sorts.ends pairThread pairCall _ _ _ pairRun rfl rfl pairRun_fair pairRun_answers
  · refine sorts.stable pairRun_compared rfl byNumber (byNumber_strictWeak _) ?_
    intro one among
    obtain rfl := List.mem_singleton.1 among
    rfl

end StackScript
