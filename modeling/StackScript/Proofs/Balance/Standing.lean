import StackScript.Proofs.Balance.Effects
import StackScript.Proofs.Constants.Runs
import StackScript.Proofs.Debugging.Steps
import StackScript.Proofs.Statements.Running

/-!
# Where a context stands

A context runs the code of a unit, in a call that was made from a call, and so on down to the unit
that the context was started with. Each of these calls stands at a point that its unit visits: what
it has put on the stack lies above what was there when it was entered, and a return comes to a point
of the caller, whatever the results. So does a fault that is caught: what a protected block recorded
is a point of the call that entered it.

Main statements: `Context.Standing.move` (what one move keeps), `Context.Awaits.resumes` (what the
results of a builtin lead to), `Context.Guarded.catch` (what a caught fault leads to) and
`Context.Standing.finished`.
-/
namespace StackScript

/-! ## Stores -/

/-- Units that are there stay, and tables stay below their parents. -/
structure Store.Ages (s s' : Store) : Prop where
  grows : s.Grows s'
  parents : ∀ {r p : TableRef}, (s.table r).parent = some p → (s'.table r).parent = some p

namespace Store.Ages

variable {s s' s'' : Store}

theorem refl (s : Store) : s.Ages s := ⟨.of_codes rfl, id⟩

theorem trans (first : s.Ages s') (second : s'.Ages s'') : s.Ages s'' :=
  ⟨first.grows.trans second.grows, fun parent => second.parents (first.parents parent)⟩

theorem code (h : s.Ages s') {r : CodeRef} (there : r.index < s.codes.size) :
    s'.code r = s.code r := by
  obtain ⟨more, codes⟩ := h.grows
  simp [Store.code, codes, there, Array.getElem?_append_left there]

/-- What a unit that was never added visits, any unit visits. -/
theorem visits (h : s.Ages s') {r : CodeRef} {a : Nat} {p : Point}
    (visits : (s.code r).Visits a p) : (s'.code r).Visits a p := by
  by_cases there : r.index < s.codes.size
  · rwa [h.code there]
  · refine visits.of_empty ?_ _
    simp [Store.code, there]

theorem below (h : s.Ages s') {depth : Nat} {r outer : TableRef} (below : Below s depth r outer) :
    Below s' depth r outer := by
  induction depth generalizing r with
  | zero => exact below
  | succ depth ih =>
    obtain ⟨p, parent, rest⟩ := below
    exact ⟨p, h.parents parent, ih rest⟩

end Store.Ages

theorem Store.Ages.of_holds {root : TableRef} {s s' : Store}
    (holds : s.Holds (fun _ => False) root s') : s.Ages s' := ⟨holds.grows, holds.parents⟩

/-- Whatever a machine does, its store ages. -/
theorem Store.Ages.of_turn {a b : World × Store} (turn : Machine.Turn a b) : a.2.Ages b.2 :=
  .of_holds (@Machine.Turn.holds (fun _ => False) a b turn id (.inr fun _ => id)).2

/-- A table that lies some tables below another one, part by part. -/
theorem Below.split {s : Store} {n m : Nat} {r outer : TableRef} (h : Below s (n + m) r outer) :
    ∃ mid, Below s n r mid ∧ Below s m mid outer := by
  induction n generalizing r with
  | zero => exact ⟨r, rfl, by rwa [Nat.zero_add] at h⟩
  | succ n ih =>
    rw [Nat.succ_add] at h
    obtain ⟨p, parent, rest⟩ := h
    obtain ⟨mid, first, second⟩ := ih rest
    exact ⟨mid, ⟨p, parent, first⟩, second⟩

/-! ## Calls in progress -/

/-- What of a context says where it stands. -/
structure View where
  code : CodeRef
  pc : Nat
  scope : TableRef
  /-- The values on the stack, the top first. -/
  values : List Value
  fp : Nat
  depth : Nat
  tries : List TryRecord
  receivers : Nat

/-- Where a context stands. -/
def Context.view (c : Context) : View :=
  ⟨c.code, c.pc, c.scope, c.values, c.fp, c.depth, c.tries, c.receivers.size⟩

/-- A call in progress: its unit, and what it found when it was entered. -/
structure Activation where
  code : CodeRef
  /-- The values below its own, its frame on top. -/
  bottom : List Value
  fp : Nat
  depth : Nat
  /-- The protected blocks of its callers. -/
  outer : List TryRecord
  receivers : Nat
  /-- The table of its names. -/
  table : TableRef

namespace Activation

variable {s s' : Store} {b : Activation} {p : Point} {v : View}

/-- A call stands at a point of its unit. There may be fewer receivers than the point says, since a
caught fault forgets some. -/
structure At (b : Activation) (s : Store) (p : Point) (v : View) : Prop where
  code : v.code = b.code
  visits : (s.code b.code).Visits v.pc p
  values : v.values = p.stack ++ b.bottom
  fp : v.fp = b.fp
  depth : v.depth = b.depth
  tries : ∃ mine, v.tries = mine ++ b.outer ∧ mine.length = p.tries ∧ ∀ r ∈ mine, r.depth = b.depth
  low : ∀ r ∈ v.tries, r.height ≤ b.bottom.length
  receivers : v.receivers ≤ b.receivers + p.receivers
  scope : Below s p.scopes v.scope b.table

theorem At.ages (h : b.At s p v) (ages : s.Ages s') : b.At s' p v :=
  { h with visits := ages.visits h.visits, scope := ages.below h.scope }

theorem At.fewer (h : b.At s p v) {k : Nat} (le : k ≤ v.receivers) :
    b.At s p { v with receivers := k } := { h with receivers := le.trans h.receivers }

/-- A call in progress goes back, call by call, to a unit that was started under a table. Wherever a
return can come to, the caller stands at a point. -/
inductive Rooted (s : Store) (unit : CodeRef) (table : TableRef) : Activation → Prop
  | ground (fp : Nat) : Rooted s unit table ⟨unit, [], fp, 0, [], 0, table⟩
  | call {b : Activation} (f : Frame) (code : CodeRef) (own : TableRef) (below : List Value)
      (outer : List TryRecord) (caller : Rooted s unit table b) (high : b.bottom.length ≤ below.length)
      (earlier : ∀ r ∈ outer, r.depth ≤ b.depth)
      (returns : ∀ results, Accepts f.multi results → ∃ p, b.At s p
        ⟨f.code, f.pc, f.scope, results ++ below, f.fp, b.depth, outer, f.receivers⟩) :
      Rooted s unit table
        ⟨code, .frame f :: below, below.length, b.depth + 1, outer, f.receivers, own⟩

variable {unit : CodeRef} {table : TableRef}

theorem Rooted.ages (h : b.Rooted s unit table) (ages : s.Ages s') : b.Rooted s' unit table := by
  induction h with
  | ground fp => exact .ground fp
  | call f code own below outer _ high earlier returns ih =>
    exact .call f code own below outer ih high earlier fun results accepts =>
      (returns results accepts).imp fun _ here => here.ages ages

/-- The protected blocks of its callers were entered before a call. -/
theorem Rooted.outer (h : b.Rooted s unit table) : ∀ r ∈ b.outer, r.depth < b.depth := by
  cases h with
  | ground fp => nofun
  | call f code own below outer _ high earlier returns =>
    exact fun r mem => Nat.lt_succ_of_le (earlier r mem)

/-- The values of a call lie above the place up to which it may take them. -/
theorem Rooted.base (h : b.Rooted s unit table) :
    b.bottom.length = if 0 < b.depth then b.fp + 1 else 0 := by
  cases h with
  | ground fp => rfl
  | call f code own below outer _ high earlier returns => rfl

end Activation

/-- A call in progress stands at a point. -/
def View.Runs (v : View) (s : Store) (unit : CodeRef) (table : TableRef) : Prop :=
  ∃ (b : Activation) (p : Point), b.Rooted s unit table ∧ b.At s p v

/-- The values that a stack cut to a height keeps, the top first. -/
def Context.lowest (c : Context) (height : Nat) : List Value := (c.stack.shrink height).toList.reverse

/-- Where a fault that is caught goes on, a call in progress stands at a point. -/
def Context.Guarded (c : Context) (s : Store) (unit : CodeRef) (table : TableRef) : Prop :=
  ∀ (r : TryRecord) (rest : List TryRecord) (handler : Nat), (r :: rest) <:+ c.tries →
    r.handler = some handler →
    View.Runs ⟨r.code, handler, r.scope, c.lowest r.height, r.fp, r.depth,
      { r with handler := none } :: rest, r.receivers⟩ s unit table

/-- A context stands in a call, and whatever it catches it will stand in one. -/
structure Context.Standing (c : Context) (s : Store) (unit : CodeRef) (table : TableRef) : Prop where
  runs : c.view.Runs s unit table
  guarded : c.Guarded s unit table

/-- What a call has put on the stack of a context, and what lies below it. -/
structure Activation.Under (b : Activation) (own : List Value) (c : Context) : Prop where
  values : c.values = own ++ b.bottom
  base : b.bottom.length = c.base
  low : ∀ r ∈ c.tries, r.height ≤ c.base

/-- A context waits for the results of a call of a builtin: whatever they are, it will stand in a
call. -/
structure Context.Awaits (c : Context) (multi : Bool) (s : Store) (unit : CodeRef)
    (table : TableRef) : Prop where
  results : ∃ (b : Activation) (own : List Value), b.Rooted s unit table ∧ b.Under own c ∧
    ∀ results, Accepts multi results → ∃ p, b.At s p { c.view with values := results ++ c.values }
  guarded : c.Guarded s unit table

variable {s s' : Store} {unit : CodeRef} {table : TableRef} {c c' : Context}

theorem View.Runs.ages {v : View} (h : v.Runs s unit table) (ages : s.Ages s') :
    v.Runs s' unit table :=
  let ⟨b, p, rooted, here⟩ := h
  ⟨b, p, rooted.ages ages, here.ages ages⟩

theorem View.Runs.fewer {v : View} (h : v.Runs s unit table) {k : Nat} (le : k ≤ v.receivers) :
    View.Runs { v with receivers := k } s unit table :=
  let ⟨b, p, rooted, here⟩ := h
  ⟨b, p, rooted, here.fewer le⟩

namespace Context

theorem Guarded.ages (h : c.Guarded s unit table) (ages : s.Ages s') : c.Guarded s' unit table :=
  fun r rest handler suffix some => (h r rest handler suffix some).ages ages

theorem Standing.ages (h : c.Standing s unit table) (ages : s.Ages s') : c.Standing s' unit table :=
  ⟨h.runs.ages ages, h.guarded.ages ages⟩

theorem Awaits.ages {multi : Bool} (h : c.Awaits multi s unit table) (ages : s.Ages s') :
    c.Awaits multi s' unit table :=
  let ⟨b, own, rooted, under, results⟩ := h.results
  ⟨⟨b, own, rooted.ages ages, under, fun vs accepts =>
    (results vs accepts).imp fun _ here => here.ages ages⟩, h.guarded.ages ages⟩

/-! ## What lies low on the stack -/

/-- What lies below the values of a call does not depend on them. -/
theorem lowest_of_values {l bottom : List Value} (values : c.values = l ++ bottom) {height : Nat}
    (low : height ≤ bottom.length) : c.lowest height = bottom.drop (bottom.length - height) := by
  have stack : c.stack.toList = bottom.reverse ++ l.reverse := by
    rw [← List.reverse_append, ← values]
    exact (List.reverse_reverse _).symm
  rw [lowest, Array.shrink_eq_take, Array.take_eq_extract, Array.toList_extract,
    List.extract_eq_take_drop, stack, List.drop_zero, Nat.sub_zero,
    List.take_append_of_le_length (by simpa using low), List.take_reverse, List.reverse_reverse]

theorem lowest_keeps (keeps : c.Keeps c') (high : c.base ≤ c.stack.size) {height : Nat}
    (low : height ≤ c.base) : c'.lowest height = c.lowest height := by
  refine congrArg (fun stack : Array Value => stack.toList.reverse) (Array.ext_getElem? fun i => ?_)
  simp only [Array.shrink_eq_take, Array.take_eq_extract, Array.getElem?_extract]
  by_cases inside : i < height
  · have same := keeps.below i (by omega) high
    have sizes : i < c.stack.size ∧ i < c'.stack.size := by
      have := keeps.high high
      have := keeps.base
      omega
    rw [if_pos (by omega), if_pos (by omega), Nat.zero_add, same]
  · rw [if_neg (by omega), if_neg (by omega)]

/-- What lies below a height does not depend on what lies above it. -/
theorem lowest_shrink {height height' : Nat} (le : height ≤ height')
    (same : c'.stack = c.stack.shrink height') : c'.lowest height = c.lowest height := by
  rw [lowest, lowest, same]
  simp only [Array.shrink_eq_take, Array.take_eq_extract, Array.toList_extract,
    List.extract_eq_take_drop, List.drop_zero, Nat.sub_zero, List.take_take, Nat.min_eq_left le]

theorem lowest_push {v : Value} {height : Nat} (low : height ≤ c.stack.size)
    (same : c'.stack = c.stack.push v) : c'.lowest height = c.lowest height := by
  rw [lowest, lowest, same]
  simp only [Array.shrink_eq_take, Array.take_eq_extract, Array.toList_extract, Array.toList_push,
    List.extract_eq_take_drop, List.drop_zero, Nat.sub_zero]
  rw [List.take_append_of_le_length (by simpa using low)]

/-- The protected blocks that are still open are guarded if what lies below them is the same. -/
theorem Guarded.of_suffix (h : c.Guarded s unit table) (tries : c'.tries <:+ c.tries)
    (lowest : ∀ r ∈ c'.tries, c'.lowest r.height = c.lowest r.height) : c'.Guarded s unit table := by
  intro r rest handler suffix some
  rw [lowest r (suffix.subset List.mem_cons_self)]
  exact h r rest handler (suffix.trans tries) some

variable {b : Activation} {own : List Value}

theorem under_high (under : b.Under own c) : c.base ≤ c.stack.size := by
  rw [Exec.size_of_values under.values, ← under.base]
  exact Nat.le_add_left _ _

/-- What a call does with its own values leaves the protected blocks guarded. -/
theorem Guarded.keeps (h : c.Guarded s unit table) (under : b.Under own c) (keeps : c.Keeps c') :
    c'.Guarded s unit table :=
  h.of_suffix (keeps.tries ▸ List.suffix_refl _) fun r mem =>
    lowest_keeps keeps (under_high under) (under.low r (keeps.tries ▸ mem))

/-- A fault that is caught leads to where a call stands. -/
theorem Guarded.catch (h : c.Guarded s unit table) {f : Fault}
    (caught : c.catch? f s = some (c', s')) : c'.Standing s' unit table := by
  unfold catch? at caught
  split at caught
  · cases caught
  next record rest found =>
  have suffix : record :: rest <:+ c.tries := found ▸ List.dropWhile_suffix _
  cases handles : record.handler with
  | none =>
    rw [handles] at caught
    cases caught
  | some handler =>
    rw [handles] at caught
    cases caught
    have ages : s.Ages (record.scope.setAlways caughtName (.error f) s) :=
      @Store.Ages.of_holds record.scope _ _ (.setAlways (.inl rfl) _)
    obtain ⟨b, p, rooted, here⟩ := h record rest handler suffix handles
    refine ⟨View.Runs.ages ⟨b, p, rooted, here.fewer (k := (c.receivers.shrink record.receivers).size)
      (by simp)⟩ ages, Guarded.ages (fun r others handler' inside some => ?_) ages⟩
    -- the block that was used does not catch again
    have behind : r :: others <:+ rest := by
      rcases List.suffix_cons_iff.1 inside with same | behind
      · cases same
        cases some
      · exact behind
    have low : r.height ≤ record.height := by
      have low := here.low r (List.mem_cons_of_mem _ (behind.subset List.mem_cons_self))
      have values := congrArg List.length here.values
      simp only [lowest, List.length_reverse, Array.length_toList, Array.size_shrink,
        List.length_append] at values
      omega
    rw [lowest_shrink low rfl]
    exact h r others handler' (behind.trans ((List.suffix_cons _ _).trans suffix)) some

end Context

/-! ## Instructions -/

namespace Activation

open Exec (Trades)

variable {n : Nat} {b : Activation} {p : Point} {i : Instruction} {w w' : World}

/-- Only values were taken and given, and the context goes on at another address. -/
theorem At.moves {v v' : View} (here : b.At s p v) {a : Nat} {p' : Point} (ages : s.Ages s')
    (visits : (s.code b.code).Visits a p') (values : v'.values = p'.stack ++ b.bottom)
    (same : v' = { v with pc := a, values := v'.values }) (scopes : p'.scopes = p.scopes)
    (tries : p'.tries = p.tries) (receivers : p'.receivers = p.receivers) : b.At s' p' v' := by
  rw [same]
  exact
    { code := here.code
      visits := ages.visits visits
      values := values
      fp := here.fp
      depth := here.depth
      tries := by rw [tries]; exact here.tries
      low := here.low
      receivers := by rw [receivers]; exact here.receivers
      scope := by rw [scopes]; exact ages.below here.scope }

theorem size_of_at (here : b.At s p c.view) : c.stack.size = p.stack.length + b.bottom.length :=
  Exec.size_of_values here.values

theorem base_of_at {v : View} (rooted : b.Rooted s unit table) (here : b.At s p v) :
    b.bottom.length = if 0 < v.depth then v.fp + 1 else 0 := by
  rw [rooted.base, here.fp, here.depth]

theorem stays_view (stays : c.Stays c') : c'.view = { c.view with values := c'.values } := by
  simp only [Context.view, stays.code, stays.pc, stays.scope, stays.fp, stays.depth, stays.tries,
    stays.receivers]

/-- An instruction that only takes and gives values leads to the next point. -/
theorem At.plain (clear : Watched.Clear (M := Exec) n (c, w, s)) (rooted : b.Rooted s unit table)
    (here : b.At s p c.view) (found : (s.code c.code).instructions[c.pc]? = some i)
    (plain : Exec.onValues i.op = true)
    (done : Exec.perform i { c with pc := c.pc + 1 } w s = (((.ok (), c'), w'), s'))
    (ages : s.Ages s') : ∃ p', b.At s' p' c'.view := by
  have ordinary := clear.2.2.code c.code i (Array.mem_of_getElem? found)
  obtain ⟨n', l', -, -, stays, values, falls⟩ := Exec.perform_advances plain ordinary b.bottom
    { c with pc := c.pc + 1 } w s ⟨{ clear.1 with }, clear.2⟩ here.values
    (base_of_at (v := c.view) rooted here) () c' w' s' done
  rw [show c.code = b.code from here.code] at found
  exact ⟨{ p with stack := l' }, here.moves ages (.falls here.visits found (falls p rfl)) values
    (stays_view stays) rfl rfl rfl⟩

/-- What is popped is the top of what the call has put on the stack. -/
theorem At.pops (clear : Watched.Clear (M := Exec) n (c, w, s)) (rooted : b.Rooted s unit table)
    (here : b.At s p c.view) {v : Value} {c₁ : Context} {w₁ : World} {s₁ : Store}
    (popped : Exec.popValue { c with pc := c.pc + 1 } w s = (((.ok v, c₁), w₁), s₁)) :
    ∃ rest, p.stack = v :: rest ∧ c₁.values = rest ++ b.bottom ∧
      ({ c with pc := c.pc + 1 } : Context).Stays c₁ := by
  obtain ⟨_, rest, -, -, stays, values, -, -, top⟩ := Exec.popValue_trades b.bottom
    { c with pc := c.pc + 1 } w s ⟨{ clear.1 with }, clear.2⟩ here.values
    (base_of_at (v := c.view) rooted here) v _ _ _ popped
  exact ⟨rest, top, values, stays⟩

/-- An instruction that opens or leaves scopes, a protected block or a receiver, or branches, leads
to the next point or to that at its target. -/
theorem At.turns (clear : Watched.Clear (M := Exec) n (c, w, s)) (rooted : b.Rooted s unit table)
    (here : b.At s p c.view) (found : (s.code c.code).instructions[c.pc]? = some i)
    (safe : i.Safe p) (noCall : i.op ≠ .call) (noLeave : i.op ≠ .leave)
    (others : Exec.onValues i.op = false)
    (done : Exec.perform i { c with pc := c.pc + 1 } w s = (((.ok (), c'), w'), s'))
    (ages : s.Ages s') : ∃ p', b.At s' p' c'.view := by
  obtain ⟨op, operand⟩ := i
  rw [show c.code = b.code from here.code] at found
  have size : (s.code c.code).size = (s.code b.code).size := by rw [show c.code = b.code from here.code]
  cases op <;> cases others
  case call => exact absurd rfl noCall
  case leave => exact absurd rfl noLeave
  case stop => cases done
  case panic =>
    obtain ⟨v, _, _, _, -, done⟩ := Exec.bind_ok done
    cases v <;> cases done
  case branchLimit => cases done
  case pushScope =>
    cases done
    refine ⟨{ p with scopes := p.scopes + 1 }, ?_⟩
    exact { here with
      visits := ages.visits (.falls here.visits found rfl)
      scope := ⟨c.scope, openTable_below s c.scope, ages.below here.scope⟩ }
  case popScope =>
    obtain ⟨left, enough⟩ := Nat.exists_eq_add_of_le safe
    have below := here.scope
    rw [enough] at below
    obtain ⟨mid, first, rest⟩ := below.split
    change Exec.closeScopes operand { c with pc := c.pc + 1 } w s = _ at done
    rw [Exec.closeScopes, Exec.leaveScopes_below (c := { c with pc := c.pc + 1 }) first] at done
    cases done
    refine ⟨{ p with scopes := left }, ?_⟩
    exact { here with
      visits := ages.visits (.falls here.visits found
        (show _ = _ by rw [enough]; simp only [Nat.add_sub_cancel_left]))
      scope := ages.below rest }
  case tryPop =>
    obtain ⟨mine, tries, length, depths⟩ := here.tries
    cases mine with
    | nil => exact absurd length (Nat.ne_of_lt safe)
    | cons r mine =>
      change Exec.leaveTry { c with pc := c.pc + 1 } w s = _ at done
      rw [Exec.leaveTry_eq, show c.tries = r :: (mine ++ b.outer) from tries] at done
      cases done
      refine ⟨{ p with tries := p.tries - 1 }, ?_⟩
      exact { here with
        visits := ages.visits (.falls here.visits found rfl)
        tries := ⟨mine, rfl, by rw [← length]; rfl, fun r' mem => depths r' (List.mem_cons_of_mem _ mem)⟩
        low := fun r' mem => here.low r' (by rw [tries]; exact List.mem_cons_of_mem _ mem)
        scope := ages.below here.scope }
  case setThis =>
    obtain ⟨v, c₁, _, _, popped, rfl⟩ := Exec.setReceiver_ok done
    obtain ⟨rest, top, values, stays⟩ := here.pops clear rooted popped
    refine ⟨{ p with stack := rest, receivers := p.receivers + 1 }, ?_⟩
    have view : ({ c₁ with receivers := c₁.receivers.push v } : Context).view =
        { c.view with
          pc := c.pc + 1, values := c₁.values, receivers := c.view.receivers + 1 } := by
      simp only [Context.view, Context.values, Array.size_push, stays.code, stays.pc, stays.scope,
        stays.fp, stays.depth, stays.tries, stays.receivers]
    rw [view]
    exact { here with
      visits := ages.visits (.falls here.visits found ⟨v, rest, top, rfl⟩)
      values := values
      receivers := Nat.succ_le_succ here.receivers
      scope := ages.below here.scope }
  case tryBlock =>
    obtain ⟨empty, target, rfl⟩ := safe
    obtain ⟨-, rfl⟩ := Exec.enterTry_ok done
    obtain ⟨mine, tries, length, depths⟩ := here.tries
    refine ⟨{ p with tries := p.tries + 1 }, ?_⟩
    exact { here with
      visits := ages.visits (.falls here.visits found rfl)
      tries := ⟨Exec.tryRecord { c with pc := c.pc + 1 } target :: mine, congrArg _ tries,
        congrArg (· + 1) length, List.forall_mem_cons.2 ⟨here.depth, depths⟩⟩
      low := List.forall_mem_cons.2 ⟨by
        have size := size_of_at here
        rw [empty, List.length_nil, Nat.zero_add] at size
        exact size.le, here.low⟩
      scope := ages.below here.scope }
  case branch =>
    obtain ⟨target, rfl⟩ := safe
    obtain ⟨inside, rfl⟩ := Exec.branch_ok done
    exact ⟨p, { here with
      visits := ages.visits (.jumps here.visits found rfl rfl (size ▸ inside))
      scope := ages.below here.scope }⟩
  case branchTrue | branchFalse =>
    obtain ⟨target, rfl⟩ := safe
    obtain ⟨v, c₁, _, _, popped, goes⟩ := Exec.branchIf_ok done
    obtain ⟨rest, top, values, stays⟩ := here.pops clear rooted popped
    have view := stays_view stays
    refine ⟨{ p with stack := rest }, ?_⟩
    rcases goes with rfl | ⟨inside, rfl⟩
    · exact here.moves ages (.falls here.visits found ⟨v, rest, top, rfl⟩) values view rfl rfl rfl
    · refine here.moves ages (a := target)
        (.jumps here.visits found ⟨v, rest, top, rfl⟩ rfl (size ▸ inside)) values ?_ rfl rfl rfl
      exact congrArg (fun v : View => { v with pc := target }) view

/-! ## Returns -/

theorem At.under {own values : List Value} (rooted : b.Rooted s unit table)
    (here : b.At s p { c.view with values := values }) (same : c.values = own ++ b.bottom) :
    b.Under own c where
  values := same
  base := base_of_at rooted here
  low := by
    have base : b.bottom.length = c.base := base_of_at rooted here
    exact fun r mem => base ▸ here.low r mem

theorem accepts_of_results {vs : List Value} {multi : Bool} {results : Array Value}
    (h : Exec.Results vs multi results) (tame : ∀ v ∈ vs, v.Tame) :
    Accepts multi results.toList.reverse := by
  cases h with
  | void => exact .one Value.tame_void multi
  | one => exact .one (tame _ List.mem_cons_self) multi
  | several some => exact .inr ⟨rfl, vs, some, tame, by simp⟩

/-- A return comes to where the caller stands, and in any case leaves its protected blocks guarded. -/
theorem At.leaves (rooted : b.Rooted s unit table) (here : b.At s p c.view)
    (guarded : c.Guarded s unit table) {count pc : Nat} (tame : ∀ v ∈ p.stack.take count, v.Tame)
    {r : Except Fault Unit} (ran : Exec.leave count { c with pc := pc } w s = (((r, c'), w'), s')) :
    c'.Guarded s unit table ∧ (r = .ok () → c'.view.Runs s unit table) := by
  cases rooted with
  | ground fp =>
    rw [Exec.leave_outside (c := { c with pc := pc }) (show c.depth = 0 from here.depth)] at ran
    cases ran
    exact ⟨guarded, nofun⟩
  | @call caller f code own below outer rooted high earlier returns =>
    have depth : c.depth = caller.depth + 1 := here.depth
    have fp : c.fp = below.length := here.fp
    have values : c.values = p.stack ++ .frame f :: below := here.values
    have stack : c.stack.toList = (below.reverse ++ [.frame f]) ++ p.stack.reverse := by
      rw [← List.reverse_cons, ← List.reverse_append, ← values]
      exact (List.reverse_reverse _).symm
    have size : c.stack.size = p.stack.length + (below.length + 1) := size_of_at here
    have frame : c.stack[c.fp]? = some (.frame f) := by
      rw [← Array.getElem?_toList, stack, fp, List.append_assoc]
      simp
    rw [Exec.leave_eq (by exact depth ▸ Nat.succ_pos _) (by exact frame)] at ran
    split at ran
    · cases ran
      exact ⟨guarded, nofun⟩
    next enough =>
    dsimp only at ran
    set restored := Exec.restore f { c with pc := pc, stack := c.stack.shrink c.fp } with restores
    -- what was there when the call was made is there again
    have kept : restored.values = below := by
      have low := Context.lowest_of_values
        (show c.values = (p.stack ++ [.frame f]) ++ below by simpa using values) (Nat.le_refl _)
      rw [Nat.sub_self, List.drop_zero] at low
      rw [← low, ← fp]
      rfl
    have tries : restored.tries = outer := by
      obtain ⟨mine, tries, -, depths⟩ := here.tries
      have less : c.depth - 1 = caller.depth := by omega
      change c.tries.filter (·.depth ≤ c.depth - 1) = outer
      rw [show c.tries = mine ++ outer from tries, less, List.filter_append,
        List.filter_eq_nil_iff.2 fun r mem => ?_, List.filter_eq_self.2 fun r mem => ?_, List.nil_append]
      · simpa using earlier r mem
      · have own : r.depth = caller.depth + 1 := depths r mem
        simp only [decide_eq_true_eq]
        omega
    have back (vs : List Value) : ({ restored.view with values := vs } : View) =
        { (⟨f.code, f.pc, f.scope, vs, f.fp, caller.depth, outer, f.receivers⟩ : View) with
          receivers := restored.receivers.size } := by
      have less : restored.depth = caller.depth := by
        change c.depth - 1 = _
        omega
      simp only [Context.view, less, tries]
      rfl
    have fewer : restored.receivers.size ≤ f.receivers := by
      rw [restores]
      simp [Exec.restore]
    obtain ⟨q, stands⟩ := returns [.nil] (.one Value.tame_nil _)
    have stands := stands.fewer fewer
    rw [← back] at stands
    obtain ⟨lower, same⟩ : ∃ lower, restored.values = lower ++ caller.bottom := by
      have values : [.nil] ++ below = q.stack ++ caller.bottom := stands.values
      cases first : q.stack with
      | nil =>
        rw [first] at values
        have short := congrArg List.length values
        simp only [List.length_append, List.length_cons, List.length_nil] at short
        omega
      | cons v lower =>
        rw [first] at values
        exact ⟨lower, kept.trans (List.cons.inj values).2⟩
    have under := stands.under rooted same
    have guards : restored.Guarded s unit table := by
      obtain ⟨mine, all, -, -⟩ := here.tries
      refine guarded.of_suffix ⟨mine, by rw [tries]; exact all.symm⟩ fun r mem => ?_
      refine Context.lowest_shrink (show _ ≤ c.fp from ?_) rfl
      have low := under.low r mem
      rw [← under.base] at low
      omega
    refine ⟨guards.keeps under ((Exec.contained_rules.pushResults _ _).keeps ran), ?_⟩
    rintro rfl
    obtain ⟨results, given, rfl⟩ := Exec.pushResults_ok ran
    -- the results were put there by the call
    have own : ∀ v ∈ (c.stack.extract (c.stack.size - count) c.stack.size).toList, v.Tame := by
      have base : c.base = below.length + 1 := by simp [Context.base, depth, fp]
      have enough : ¬c.stack.size < c.base + count := enough
      intro v mem
      refine tame v ?_
      have cut : c.stack.size - count = (below.reverse ++ [Value.frame f]).length +
          (p.stack.length - count) := by
        simp
        omega
      rw [Array.toList_extract, List.extract_eq_take_drop, List.take_of_length_le (by simp), stack, cut,
        List.drop_length_add_append] at mem
      rw [← List.reverse_reverse p.stack, List.take_reverse, List.mem_reverse, List.length_reverse]
      simpa using mem
    obtain ⟨q, stands⟩ := returns _ (accepts_of_results given own)
    refine ⟨caller, q, rooted, ?_⟩
    have view : ({ restored with stack := restored.stack ++ results } : Context).view =
        { restored.view with values := results.toList.reverse ++ below } := by
      rw [← kept]
      simp [Context.view, Context.values]
    rw [view, back]
    exact stands.fewer fewer

/-! ## Calls -/

theorem At.own (rooted : b.Rooted s unit table) (here : b.At s p c.view) : b.Under p.stack c :=
  here.under rooted here.values

/-- A call leaves the protected blocks guarded. -/
theorem Under.calls {own : List Value} (under : b.Under own c) (guarded : c.Guarded s unit table)
    {operand : Operand} {r : Except Fault (Option (PendingCall × Answer))}
    (ran : Exec.call operand c w s = (((r, c'), w'), s')) : c'.Guarded s unit table := by
  rcases Exec.call_cases ran with keeps | ⟨below, -, -, -, flags, receivers, -, keeps, entered⟩
  · exact guarded.keeps under keeps
  · refine (guarded.keeps under keeps).of_suffix (entered.tries ▸ List.suffix_refl _) fun r mem => ?_
    refine Context.lowest_push ?_ entered.stack
    have base := keeps.base
    have high := keeps.high (Context.under_high under)
    have low := under.low r (keeps.tries ▸ entered.tries ▸ mem)
    omega

theorem receiverOf_ok {flags : CallFlags} {receiver : Option Value}
    (received : Exec.receiverOf flags c w s = (((.ok receiver, c'), w'), s')) :
    c'.view = { c.view with
      receivers := if flags.receiver then c.receivers.size - 1 else c.receivers.size } := by
  unfold Exec.receiverOf at received
  cases flag : flags.receiver <;> rw [flag] at received <;> cases received
  · rfl
  · simp [Context.view, Context.values]

/-- A function that is called starts above the values of its caller. -/
theorem callFunction_ok {code : CodeRef} {captured : Option TableRef} {args : List Value}
    {receiver : Option Value} {multi : Bool}
    (entered : Exec.callFunction code captured args receiver multi c w s = (((.ok (), c'), w'), s')) :
    c'.view = ⟨code, 0, c'.scope, .frame (Exec.saved c multi) :: c.values, c.values.length,
      c.depth + 1, c.tries, c.receivers.size⟩ := by
  obtain ⟨c₁, s₁, ran, view⟩ : ∃ c₁ s₁, Exec.callFunction code captured args receiver multi c w s =
      (((.ok (), c₁), w), s₁) ∧ c₁.view = ⟨code, 0, c₁.scope,
        .frame (Exec.saved c multi) :: c.values, c.values.length, c.depth + 1, c.tries,
        c.receivers.size⟩ :=
    ⟨_, _, rfl, by simp [Context.view, Context.values, Exec.saved]⟩
  cases entered.symm.trans ran
  exact view

/-- Where a call was taken from the stack its results will come to the next point. -/
theorem At.takes (clear : Watched.Clear (M := Exec) n (c, w, s)) (rooted : b.Rooted s unit table)
    (here : b.At s p c.view) {operand : Operand}
    (found : (s.code c.code).instructions[c.pc]? = some ⟨.call, operand⟩) {flags : CallFlags}
    {args : List Value} {callee : Value} {receiver : Option Value} {c₁ c₂ : Context} {w₁ w₂ : World}
    {s₁ s₂ : Store}
    (took : Exec.takeCall operand { c with pc := c.pc + 1 } w s =
      (((.ok (flags, args, callee), c₁), w₁), s₁))
    (received : Exec.receiverOf flags c₁ w₁ s₁ = (((.ok receiver, c₂), w₂), s₂)) :
    Watched.Clear (M := Exec) n (c₂, w₂, s₂) ∧ (∀ v ∈ args, v.Ordinary n) ∧
      (∀ v ∈ receiver, v.Ordinary n) ∧ ∃ own, b.Under own c₂ ∧ c₂.depth = b.depth ∧
        c₂.tries = c.tries ∧ ∀ results, Accepts flags.multi results →
          ∃ p', b.At s p' { c₂.view with values := results ++ c₂.values } := by
  obtain ⟨_, left, -, clear₁, stays, values, rfl, rfl, ordinary, count, takes, enough, rfl⟩ :=
    Exec.takeCall_trades operand b.bottom { c with pc := c.pc + 1 } w s
      ⟨{ clear.1 with }, clear.2⟩ here.values (base_of_at (v := c.view) rooted here) _ _ _ _ took
  obtain ⟨clear₂, -, result, -, -⟩ :=
    Exec.receiverOf_still (L := .any) operand.callFlags (c₁, w₁, s₁) clear₁ clear₁.2.2.size
  simp only [Stateful.run, received] at clear₂ result
  obtain ⟨size, given⟩ := result receiver rfl
  rw [size] at clear₂
  have view := receiverOf_ok received
  rw [stays_view stays] at view
  have values₂ : c₂.values = c₁.values := congrArg View.values view
  have comes (results : List Value) (accepts : Accepts operand.callFlags.multi results) :
      ∃ p', b.At s p' { c₂.view with values := results ++ c₂.values } := by
    refine ⟨{ p with
      stack := results ++ p.stack.drop count
      receivers := if operand.callFlags.receiver then p.receivers - 1 else p.receivers }, ?_⟩
    rw [view, values₂, values, ← List.append_assoc]
    rw [show c.code = b.code from here.code] at found
    exact { here with
      visits := .falls here.visits found ⟨count, results, takes, enough, accepts, rfl⟩
      values := rfl
      receivers := by
        have few := here.receivers
        have same : c₁.receivers = c.receivers := stays.receivers
        simp only [Context.view] at few
        dsimp only
        rw [same]
        split
        · omega
        · exact few
      scope := here.scope }
  obtain ⟨p', stands⟩ := comes [.nil] (.one Value.tame_nil _)
  refine ⟨clear₂, ordinary, given, _, stands.under rooted (values₂.trans values), stands.depth, ?_, comes⟩
  exact congrArg View.tries view

/-- What a call leads to that does not fail: to the start of a function, to the next point, or to a
request. -/
theorem At.called (clear : Watched.Clear (M := Exec) n (c, w, s)) (rooted : b.Rooted s unit table)
    (here : b.At s p c.view) (guarded : c.Guarded s unit table) {operand : Operand}
    (found : (s.code c.code).instructions[c.pc]? = some ⟨.call, operand⟩)
    {request : Option (PendingCall × Answer)}
    (ran : Exec.call operand { c with pc := c.pc + 1 } w s = (((.ok request, c'), w'), s'))
    (ages : s.Ages s') :
    match request with
    | none => c'.Standing s' unit table
    | some (call, _) => c'.Awaits call.multi s' unit table := by
  have own := here.own rooted
  have guarded' := (Under.calls (c := { c with pc := c.pc + 1 }) { own with } guarded ran).ages ages
  rw [Exec.call_takes] at ran
  obtain ⟨⟨flags, args, callee⟩, c₁, w₁, s₁, took, ran⟩ := Exec.bind_ok ran
  obtain ⟨receiver, c₂, w₂, s₂, received, ran⟩ := Exec.bind_ok ran
  obtain ⟨clear₂, ordinary, given, left, under, depth, tries, comes⟩ :=
    here.takes clear rooted found took received
  by_cases function : ∃ code captured, callee = .function code captured
  · obtain ⟨code, captured, rfl⟩ := function
    obtain ⟨_, c₃, w₃, s₃, entered, ran⟩ := Exec.bind_ok ran
    cases ran
    have view := callFunction_ok entered
    obtain ⟨_, stands⟩ := comes [.nil] (.one Value.tame_nil _)
    obtain ⟨mine, all, -, depths⟩ := stands.tries
    have earlier (r : TryRecord) (mem : r ∈ c₂.tries) : r.depth ≤ b.depth := by
      rw [show c₂.tries = mine ++ b.outer from all] at mem
      rcases List.mem_append.1 mem with mem | mem
      · exact (depths r mem).le
      · exact (rooted.outer r mem).le
    have high : b.bottom.length ≤ c₂.values.length := by simp [under.values]
    have returns (results : List Value) (accepts : Accepts flags.multi results) :
        ∃ p', b.At s p' ⟨c₂.code, c₂.pc, c₂.scope, results ++ c₂.values, c₂.fp, b.depth, c₂.tries,
          c₂.receivers.size⟩ := depth ▸ comes results accepts
    refine ⟨View.Runs.ages ⟨_, {}, .call (Exec.saved c₂ flags.multi) code c'.scope c₂.values c₂.tries
      rooted high earlier returns, ?_⟩ ages, guarded'⟩
    rw [view]
    exact
      { code := rfl
        visits := .start
        values := rfl
        fp := rfl
        depth := congrArg (· + 1) depth
        tries := ⟨[], rfl, rfl, List.forall_mem_nil _⟩
        low := fun r mem => by
          have low := stands.low r mem
          simp only [List.length_cons]
          omega
        receivers := Nat.le_refl _
        scope := rfl }
  · obtain ⟨_, left', -, -, stays, values, served⟩ :=
      Exec.applyValue_serves (fun code captured same => function ⟨code, captured, same⟩) ordinary
        given flags.multi b.bottom c₂ w₂ s₂ clear₂ under.values under.base _ _ _ _ ran
    have view := stays_view stays
    cases request with
    | none =>
      obtain ⟨results, accepts, rfl⟩ := served
      obtain ⟨p', stands⟩ := comes results accepts
      refine ⟨View.Runs.ages ⟨b, p', rooted, ?_⟩ ages, guarded'⟩
      rw [view, values, List.append_assoc, ← under.values]
      exact stands
    | some request =>
      obtain ⟨multi, rfl⟩ := served
      have same : c'.values = c₂.values := values.trans under.values.symm
      have comes' (results : List Value) (accepts : Accepts request.1.multi results) :
          ∃ p', b.At s' p' { c'.view with values := results ++ c'.values } := by
        rw [view, same]
        exact (comes results (multi ▸ accepts)).imp fun _ stands => stands.ages ages
      obtain ⟨_, stands⟩ := comes' [.nil] (.one Value.tame_nil _)
      exact ⟨⟨b, _, rooted.ages ages, stands.under (rooted.ages ages) values, comes'⟩, guarded'⟩

/-! ## Steps -/

/-- A protected block that is entered is guarded: where a fault is caught in it, the call has nothing
on the stack. -/
theorem At.enters (rooted : b.Rooted s unit table) (here : b.At s p c.view)
    (guarded : c.Guarded s unit table) {operand : Operand} {pc : Nat}
    (found : (s.code c.code).instructions[c.pc]? = some ⟨.tryBlock, operand⟩)
    (safe : Instruction.Safe ⟨.tryBlock, operand⟩ p) {r : Except Fault Unit}
    (ran : Exec.enterTry operand { c with pc := pc } w s = (((r, c'), w'), s')) :
    c'.Guarded s unit table := by
  obtain ⟨empty, target, rfl⟩ := safe
  have own := here.own rooted
  cases r with
  | error f =>
    unfold Exec.enterTry at ran
    rcases Exec.bind_cases ran with ⟨f, -, failed⟩ | ⟨a, _, _, _, -, rest⟩
    · exact Context.Guarded.keeps (c := { c with pc := pc }) guarded { own with }
        ((Exec.contained_rules.addressOf _).keeps failed)
    · cases rest
  | ok u =>
    obtain ⟨inside, rfl⟩ := Exec.enterTry_ok ran
    intro r rest handler suffix handles
    rcases List.suffix_cons_iff.1 suffix with same | behind
    · cases same
      cases handles
      obtain ⟨mine, tries, length, depths⟩ := here.tries
      have values := here.values
      rw [empty, List.nil_append] at values
      have height : c.stack.size = b.bottom.length := by
        rw [size_of_at here, empty, List.length_nil, Nat.zero_add]
      have lowest : c.lowest c.stack.size = b.bottom := by
        rw [Context.lowest_of_values (l := []) values height.le, height, Nat.sub_self, List.drop_zero]
      have visits := here.visits
      rw [show c.code = b.code from here.code] at found inside
      refine ⟨b, { p with tries := p.tries + 1 }, rooted, { here with
        visits := .jumps visits found rfl rfl inside
        values := ?_
        tries := ⟨{ Exec.tryRecord { c with pc := pc } target with handler := none } :: mine,
          congrArg (_ :: ·) tries, congrArg (· + 1) length,
          List.forall_mem_cons.2 ⟨here.depth, depths⟩⟩
        low := List.forall_mem_cons.2 ⟨height.le, here.low⟩ }⟩
      rw [empty]
      exact lowest
    · exact guarded r rest handler behind handles

/-- Whatever an instruction does, it leaves the protected blocks guarded. -/
theorem At.performs (rooted : b.Rooted s unit table) (here : b.At s p c.view)
    (guarded : c.Guarded s unit table) (found : (s.code c.code).instructions[c.pc]? = some i)
    (safe : i.Safe p) (noCall : i.op ≠ .call) {r : Except Fault Unit}
    (ran : Exec.perform i { c with pc := c.pc + 1 } w s = (((r, c'), w'), s')) :
    c'.Guarded s unit table := by
  have own := here.own rooted
  cases parts : Exec.delimits i.op with
  | false =>
    exact Context.Guarded.keeps (c := { c with pc := c.pc + 1 }) guarded { own with }
      ((Exec.perform_contained parts).keeps ran)
  | true =>
    obtain ⟨op, operand⟩ := i
    cases op <;> cases parts
    · exact absurd rfl noCall
    · exact (here.leaves rooted guarded safe ran).1
    · change Exec.leaveTry _ w s = _ at ran
      rw [Exec.leaveTry_eq] at ran
      split at ran
      · cases ran
        exact guarded
      · next first rest tries =>
        cases ran
        exact guarded.of_suffix (tries ▸ List.suffix_cons first rest) fun _ _ => rfl
    · exact here.enters rooted guarded found safe ran

end Activation

/-! ## What a context does -/

namespace Context

open Activation

variable {n : Nat} {w w' : World}

/-- A context stands where its signal says: in a call while it runs, before the results of a builtin
while it asks for them, anywhere when it has ended. -/
def Stands (c : Context) (signal : Signal) (s : Store) (unit : CodeRef) (table : TableRef) : Prop :=
  match signal with
  | .runs => c.Standing s unit table
  | .blocked call _ | .asks call _ => c.Awaits call.multi s unit table
  | .ended _ => True

/-- What a fault leads to. -/
theorem Guarded.handle (h : c.Guarded s unit table) (f : Fault) :
    (c.handle f s).2.1.Stands (c.handle f s).1 (c.handle f s).2.2 unit table := by
  unfold Context.handle
  split
  · trivial
  · trivial
  · dsimp only
    split
    · next caught =>
      split at caught
      · cases caught
      · exact h.catch caught
    · trivial

/-- What a part of a step leads to, if what it does without failing is known. -/
theorem Guarded.settled (guarded : c.Guarded s unit table) {r : Except Fault Progress}
    (progresses : ∀ progress, r = .ok progress → c.Stands (c.settled w s (.ok progress)).1 s unit table) :
    (c.settled w s r).2.1.Stands (c.settled w s r).1 (c.settled w s r).2.2.2 unit table := by
  cases r with
  | ok progress => cases progress <;> exact progresses _ rfl
  | error f => exact guarded.handle f

/-- Everything that a step can be. -/
theorem step_parts {r : Except Fault Progress} (ran : Exec.step c w s = (((r, c'), w'), s')) :
    (∃ operand r', (s.code c.code).instructions[c.pc]? = some ⟨.call, operand⟩ ∧
      Exec.call operand { c with pc := c.pc + 1 } w s = (((r', c'), w'), s') ∧
      r = r'.map fun | some (call, answer) => .asks call answer | none => .goesOn) ∨
    (∃ (i : Instruction) (r' : Except Fault Unit), (s.code c.code).instructions[c.pc]? = some i ∧
      i.op ≠ .call ∧ Exec.perform i { c with pc := c.pc + 1 } w s = (((r', c'), w'), s') ∧
      r = r'.map fun _ => .goesOn) ∨
    (∃ r' : Except Fault Unit, Exec.leave 0 c w s = (((r', c'), w'), s') ∧
      r = r'.map fun _ => .goesOn) ∨
    (s.code c.code).instructions[c.pc]? = none ∧ c.depth = 0 ∧ c' = c ∧ s' = s ∧ r = .ok .finished := by
  rw [Exec.step_eq] at ran
  cases found : (s.code c.code).instructions[c.pc]? with
  | some i =>
    rw [found] at ran
    dsimp only at ran
    split at ran
    · next isCall =>
      obtain ⟨op, operand⟩ := i
      cases (eq_of_beq isCall : op = .call)
      refine .inl ⟨operand, ?_⟩
      rcases Exec.bind_cases ran with ⟨f, rfl, failed⟩ | ⟨request, c₁, w₁, s₁, called, rest⟩
      · exact ⟨.error f, rfl, failed, rfl⟩
      · refine ⟨.ok request, rfl, ?_⟩
        cases request with
        | none =>
          cases rest
          exact ⟨called, rfl⟩
        | some request =>
          cases rest
          exact ⟨called, rfl⟩
    · next noCall =>
      refine .inr (.inl ⟨i, ?_⟩)
      have noCall : i.op ≠ .call := fun same => noCall (beq_iff_eq.2 same)
      rcases Exec.bind_cases ran with ⟨f, rfl, failed⟩ | ⟨_, c₁, w₁, s₁, performed, rest⟩
      · exact ⟨.error f, rfl, noCall, failed, rfl⟩
      · cases rest
        exact ⟨.ok (), rfl, noCall, performed, rfl⟩
  | none =>
    rw [found] at ran
    dsimp only at ran
    split at ran
    · refine .inr (.inr (.inl ?_))
      rcases Exec.bind_cases ran with ⟨f, rfl, failed⟩ | ⟨_, c₁, w₁, s₁, left, rest⟩
      · exact ⟨.error f, failed, rfl⟩
      · cases rest
        exact ⟨.ok (), left, rfl⟩
    · next shallow =>
      cases ran
      exact .inr (.inr (.inr ⟨rfl, Nat.eq_zero_of_not_pos shallow, rfl, rfl, rfl⟩))

/-- One move of a context that stands in a call of a balanced unit. -/
theorem Standing.move (clear : Watched.Clear (M := Exec) n (c, w, s))
    (balanced : ∀ r, (s.code r).Balanced) (h : c.Standing s unit table) :
    (c.move w s).2.1.Stands (c.move w s).1 (c.move w s).2.2.2 unit table := by
  obtain ⟨⟨b, p, rooted, here⟩, guarded⟩ := h
  rcases ran : Exec.step c w s with ⟨⟨⟨r, c'⟩, w'⟩, s'⟩
  have ages : s.Ages s' := by
    have ages := Store.Ages.of_turn (.step c w s)
    rwa [ran] at ages
  rw [move_eq ran]
  have safe {i : Instruction} (found : (s.code c.code).instructions[c.pc]? = some i) : i.Safe p := by
    have visits := here.visits
    rw [← show c.code = b.code from here.code] at visits
    exact balanced _ _ _ _ visits found
  rcases step_parts ran with ⟨operand, r', found, called, rfl⟩ | ⟨i, r', found, noCall, performed, rfl⟩ |
    ⟨r', left, rfl⟩ | ⟨-, -, -, -, rfl⟩
  · have own := here.own rooted
    refine (((Under.calls (c := { c with pc := c.pc + 1 }) { own with } guarded called)).ages
      ages).settled ?_
    rintro progress same
    cases r' with
    | error f => cases same
    | ok request =>
      have stands := here.called clear rooted guarded found called ages
      cases same
      cases request <;> exact stands
  · have guards := (here.performs rooted guarded found (safe found) noCall performed).ages ages
    refine guards.settled ?_
    rintro progress same
    cases r' with
    | error f => cases same
    | ok u =>
      cases same
      by_cases leaves : i.op = .leave
      · obtain ⟨op, operand⟩ := i
        cases leaves
        exact ⟨((here.leaves rooted guarded (safe found) performed).2 rfl).ages ages, guards⟩
      · obtain ⟨p', stands⟩ : ∃ p', b.At s' p' c'.view := by
          cases plain : Exec.onValues i.op with
          | true => exact here.plain clear rooted found plain performed ages
          | false => exact here.turns clear rooted found (safe found) noCall leaves plain performed ages
        exact ⟨⟨b, p', rooted.ages ages, stands⟩, guards⟩
  · obtain ⟨guards, back⟩ := here.leaves rooted guarded (by simp)
      (show Exec.leave 0 { c with pc := c.pc } w s = _ from left)
    refine (guards.ages ages).settled ?_
    rintro progress same
    cases r' with
    | error f => cases same
    | ok u =>
      cases same
      exact ⟨(back rfl).ages ages, guards.ages ages⟩
  · trivial

/-! ### Builtins -/

/-- The results of a builtin come to the next point, and a failure leaves the protected blocks
guarded. -/
theorem Awaits.resumes {multi : Bool} (clear : Watched.Clear (M := Exec) n (c, w, s))
    (h : c.Awaits multi s unit table) {m : Exec Unit} (yields : ∀ l, Exec.Yields n l multi m)
    (contained : Exec.Contained m) {r : Except Fault Unit}
    (ran : m c w s = (((r, c'), w'), s')) (ages : s.Ages s') :
    c'.Guarded s' unit table ∧ (r = .ok () → c'.Standing s' unit table) := by
  obtain ⟨⟨b, own, rooted, under, results⟩, guarded⟩ := h
  have guards := (guarded.keeps under (contained.keeps ran)).ages ages
  refine ⟨guards, ?_⟩
  rintro rfl
  obtain ⟨_, l', -, -, stays, values, vs, accepts, rfl⟩ :=
    yields own b.bottom c w s clear under.values under.base _ _ _ _ ran
  obtain ⟨p, stands⟩ := results vs accepts
  refine ⟨⟨b, p, rooted.ages ages, ?_⟩, guards⟩
  rw [stays_view stays, values, List.append_assoc, ← under.values]
  exact stands.ages ages

/-- A run that falls off the end has come to the end of its unit. -/
theorem Standing.finished (h : c.Standing s unit table)
    (ran : Exec.step c w s = (((.ok .finished, c'), w'), s')) :
    ∃ p, (s.code unit).Visits (s.code unit).size p ∧ c'.depth = 0 ∧ c'.values = p.stack ∧
      Below s p.scopes c'.scope table ∧ c'.tries.length = p.tries ∧ c'.receivers.size ≤ p.receivers := by
  rcases step_parts ran with ⟨-, r', -, -, same⟩ | ⟨-, r', -, -, -, same⟩ | ⟨r', -, same⟩ |
    ⟨ended, shallow, rfl, -, -⟩
  · rcases r' with f | _ | request <;> cases same
  · cases r' <;> cases same
  · cases r' <;> cases same
  · obtain ⟨⟨b, p, rooted, here⟩, -⟩ := h
    have depth := here.depth
    cases rooted with
    | call f code own below outer _ high earlier returns => cases depth.symm.trans shallow
    | ground fp =>
      have visits := here.visits
      rw [show c'.code = unit from here.code] at ended
      obtain ⟨mine, tries, length, -⟩ := here.tries
      have last : c'.pc = (s.code unit).size :=
        Nat.le_antisymm visits.le_size (Array.getElem?_eq_none_iff.1 ended)
      refine ⟨p, last ▸ visits, shallow, ?_, here.scope, ?_, ?_⟩
      · exact here.values.trans (List.append_nil _)
      · rw [show c'.tries = mine ++ [] from tries, List.append_nil, length]
      · exact here.receivers.trans_eq (Nat.zero_add _)

end Context

end StackScript
