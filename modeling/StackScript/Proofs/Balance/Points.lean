import StackScript.Proofs.Parameters.Binding

/-!
# Points of a run

A point says what a call of a unit has put on the stacks of a context by itself: the values on the
operand stack, how many scopes and protected blocks are open, and how many receivers are waiting.
Every instruction leads from a point to others, and asks something of the point that it starts from.
The points that a unit visits are those that can be come to from its start.

Main statements: `Spot.mem_above` and its like (sets of points by what lies on top of them), and one
`Instruction.Goes` rule for each instruction: from which points to which it leads.
-/
namespace StackScript

/-! ## Values -/

/-- A value that may lie anywhere on the stack: no marker but that of a call without results. -/
def Value.Tame (v : Value) : Prop := ∀ m, v = .marker m → m = .void

/-- What a call may leave on the stack, the top first: one value, or for a caller that takes every
result several of them above a marker. -/
def Accepts (multi : Bool) (results : List Value) : Prop :=
  (∃ v, v.Tame ∧ results = [v]) ∨ multi = true ∧ ∃ vs : List Value,
    2 ≤ vs.length ∧ (∀ v ∈ vs, v.Tame) ∧ results = vs ++ [.marker .results]

theorem Value.tame_void : (Value.marker .void).Tame := by
  rintro _ ⟨⟩
  rfl

theorem Value.tame_nil : Value.nil.Tame := nofun

theorem Accepts.one {v : Value} (tame : v.Tame) (multi : Bool) : Accepts multi [v] :=
  .inl ⟨v, tame, rfl⟩

/-! ## Points -/

/-- What a call has put on the stacks. -/
structure Point where
  /-- The values, the top first. -/
  stack : List Value := []
  scopes : Nat := 0
  tries : Nat := 0
  receivers : Nat := 0

/-- How many values an instruction takes and how many it gives, if that is all it does. -/
def Instruction.exchange (i : Instruction) : Option (Nat × Nat) :=
  match i.op with
  | .noOperation | .atLine | .newline | .argCheck | .staticTyping | .symbolCreate | .symbolDelete =>
    some (0, 0)
  | .push => match i.operand with
    | .value (.marker _) => none
    | _ => some (0, 1)
  | .load | .loadThis => some (0, 1)
  | .timer => some (0, if i.operand.asInt?.getD 0 = 0 then 0 else 1)
  | .store | .explode | .log | .constant | .say => some (1, 0)
  | .drop => some (max (Exec.countOf i.operand 1) 1, 0)
  | .print => some (Exec.countOf i.operand 1, 0)
  | .member | .classMember | .coerce | .copy | .template | .requiredType | .negate => some (1, 1)
  | .loadIndex | .add | .sub | .mul | .div | .exp | .modulo | .and | .or | .bitAnd | .bitOr
  | .bitShift | .equal | .notEqual | .lessThan | .lessThanOrEqual | .greaterThan
  | .greaterThanOrEqual => some (2, 1)
  | .loadSlice | .storeIndex => some (3, 1)
  | .array => some ((Exec.countAndPart i.operand).1, 1)
  | .makeArray => some (if i.operand.asInt? = some 2 then 2 else 1, 1)
  | .struct => some ((Exec.countAndPart i.operand).1 * 2, 1)
  | _ => none

/-- The flags of a call. -/
def Operand.callFlags (operand : Operand) : CallFlags := .ofInt (callParts operand).2

/-- How many values a call takes from a stack: the callee, its arguments, and what says how many
values the last argument was spread into. -/
def Operand.CallTakes (operand : Operand) (stack : List Value) (taken : Nat) : Prop :=
  if operand.callFlags.spread then
    ∃ v rest n, stack = v :: rest ∧ v.asInt? = some n ∧
      taken = (callParts operand).1 - 1 + n.toInt.toNat + 2
  else taken = (callParts operand).1 + 1

/-- A call with at most so many arguments, and with one at least if the last one was spread. -/
structure Operand.Callable (most : Nat) (operand : Operand) : Prop where
  few : (callParts operand).1 ≤ most
  spread : operand.callFlags.spread = true → 0 < (callParts operand).1

namespace Instruction

/-- The points at which the next instruction can be come to. -/
def Falls (i : Instruction) (p p' : Point) : Prop :=
  match i.exchange with
  | some (taken, given) => taken ≤ p.stack.length ∧ ∃ out : List Value,
      out.length = given ∧ (∀ v ∈ out, v.Tame) ∧ p' = { p with stack := out ++ p.stack.drop taken }
  | none =>
    match i.op with
    | .push => ∃ m, i.operand = .value (.marker m) ∧ p' = { p with stack := .marker m :: p.stack }
    | .dup => ∃ v rest, p.stack = v :: rest ∧ p' = { p with stack := v :: v :: rest }
    | .swap => ∃ u v rest, p.stack = u :: v :: rest ∧ p' = { p with stack := v :: u :: rest }
    | .readStack => ∃ v, p.stack[Exec.countOf i.operand 0]? = some v ∧
        p' = { p with stack := v :: p.stack }
    | .flatten => ∃ v rest items n, p.stack = v :: rest ∧ items.length = n.toInt.toNat ∧
        (∀ v ∈ items, v.Tame) ∧ p' = { p with stack := .int n :: items ++ rest }
    | .dropToMarker => ∃ above v rest, p.stack = above ++ v :: rest ∧
        (∀ u ∈ above, Exec.isMarkerOf (i.operand.asName?.getD "") u = false) ∧
        Exec.isMarkerOf (i.operand.asName?.getD "") v = true ∧ p' = { p with stack := rest }
    | .call => ∃ taken results, i.operand.CallTakes p.stack taken ∧ taken ≤ p.stack.length ∧
        Accepts i.operand.callFlags.multi results ∧
        p' = { p with
          stack := results ++ p.stack.drop taken
          receivers := if i.operand.callFlags.receiver then p.receivers - 1 else p.receivers }
    | .pushScope => p' = { p with scopes := p.scopes + 1 }
    | .popScope => p' = { p with scopes := p.scopes - max (Exec.countOf i.operand 1) 1 }
    | .tryBlock => p' = { p with tries := p.tries + 1 }
    | .tryPop => p' = { p with tries := p.tries - 1 }
    | .setThis => ∃ v rest, p.stack = v :: rest ∧
        p' = { p with stack := rest, receivers := p.receivers + 1 }
    | .branchTrue | .branchFalse => ∃ v rest, p.stack = v :: rest ∧ p' = { p with stack := rest }
    | _ => False

/-- The points at which the target of a branch can be come to. The handler of a protected block
finds its record still there. -/
def Jumps (i : Instruction) (p p' : Point) : Prop :=
  match i.op with
  | .branch => p' = p
  | .branchTrue | .branchFalse => ∃ v rest, p.stack = v :: rest ∧ p' = { p with stack := rest }
  | .tryBlock => p' = { p with tries := p.tries + 1 }
  | _ => False

/-- What an instruction asks of the point that it starts from. -/
def Safe (i : Instruction) (p : Point) : Prop :=
  match i.op with
  | .leave => ∀ v ∈ p.stack.take (Exec.countOf i.operand 0), v.Tame
  | .popScope => max (Exec.countOf i.operand 1) 1 ≤ p.scopes
  | .tryPop => 0 < p.tries
  | .tryBlock => p.stack = [] ∧ ∃ target, i.operand = .address target
  | .branch | .branchTrue | .branchFalse => ∃ target, i.operand = .address target
  | _ => True

variable {i : Instruction} {p p' : Point}

/-- A transfer of control does not come to the next instruction. -/
theorem Falls.goesOn (h : i.Falls p p') : i.op.isTransfer = false := by
  obtain ⟨op, operand⟩ := i
  cases op <;> first | rfl | exact absurd h id

/-- Only branches lead to a target. -/
theorem Jumps.branch (h : i.Jumps p p') : i.op.isBranch = true := by
  obtain ⟨op, operand⟩ := i
  cases op <;> first | rfl | exact absurd h id

end Instruction

/-! ## Units -/

namespace Code

/-- A unit that starts with nothing on the stacks comes to a point before the instruction at an
address. -/
inductive Visits (code : Code) : Nat → Point → Prop
  | start : Visits code 0 {}
  | falls {a : Nat} {p p' : Point} {i : Instruction} (before : Visits code a p)
      (found : code.instructions[a]? = some i) (falls : i.Falls p p') : Visits code (a + 1) p'
  | jumps {a target : Nat} {p p' : Point} {i : Instruction} (before : Visits code a p)
      (found : code.instructions[a]? = some i) (jumps : i.Jumps p p')
      (operand : i.operand = .address target) (inside : target ≤ code.size) : Visits code target p'

/-- Wherever a unit comes to, what the next instruction asks for is there. -/
def Balanced (code : Code) : Prop :=
  ∀ (a : Nat) (p : Point) (i : Instruction), code.Visits a p → code.instructions[a]? = some i →
    i.Safe p

/-- What a unit leaves on the stacks where its code ends. -/
def EndsIn (code : Code) (ends : Point → Prop) : Prop := ∀ p, code.Visits code.size p → ends p

variable {code : Code}

theorem Visits.le_size {a : Nat} {p : Point} (h : code.Visits a p) : a ≤ code.size := by
  cases h with
  | start => exact Nat.zero_le _
  | falls _ found _ => exact (Array.getElem?_eq_some_iff.1 found).1
  | jumps _ _ _ _ inside => exact inside

/-- A unit without instructions visits its start only, as every unit does. -/
theorem Visits.of_empty {a : Nat} {p : Point} (h : code.Visits a p) (none : code.instructions = #[])
    (other : Code) : other.Visits a p := by
  cases h with
  | start => exact .start
  | falls _ found _ => simp [none] at found
  | jumps _ found _ _ _ => simp [none] at found

end Code

/-! ## Flags of calls -/

theorem CallFlags.ofInt_or_two (f : Int64) :
    CallFlags.ofInt (f ||| 2) = { CallFlags.ofInt f with multi := true } := by
  have masked (mask : Int64) : (f ||| 2) &&& mask = (f &&& mask) ||| (2 &&& mask) := by
    rw [← Int64.toBitVec_inj]
    simp only [Int64.toBitVec_and, Int64.toBitVec_or]
    ext i inside
    simp only [BitVec.getElem_and, BitVec.getElem_or, Bool.and_or_distrib_right]
  have spread : (f ||| 2) &&& 1 = f &&& 1 := (masked 1).trans Int64.or_zero
  have multi : (f ||| 2) &&& 2 ≠ 0 := fun none => by
    have second := congrArg (fun n : Int64 => n.toBitVec[1]) ((masked 2).symm.trans none)
    simp at second
  have receiver : (f ||| 2) &&& 4 = f &&& 4 := (masked 4).trans Int64.or_zero
  simp [ofInt, spread, multi, receiver]

theorem CallFlags.ofInt_and_not_two (f : Int64) :
    CallFlags.ofInt (f &&& ~~~2) = { CallFlags.ofInt f with multi := false } := by
  have spread : (f &&& ~~~2) &&& 1 = f &&& 1 := by rw [Int64.and_assoc]; rfl
  have multi : (f &&& ~~~2) &&& 2 = 0 := by rw [Int64.and_assoc]; exact Int64.and_zero
  have receiver : (f &&& ~~~2) &&& 4 = f &&& 4 := by rw [Int64.and_assoc]; rfl
  simp [ofInt, spread, multi, receiver]

/-- What the operand of a call with few arguments says. -/
theorem callParts_callOperand {count : Nat} (few : count < countLimit) (flags : Int64) :
    callParts (callOperand count flags) = (count, flags) := by
  have read : callCount (some (Int64.ofNat count)) = count := by
    rw [callCount, Option.map_some, Option.getD_some, toInt_ofNat few, Int.toNat_natCast]
  unfold callOperand
  split
  · next none => exact Prod.ext read none.symm
  · exact Prod.ext read rfl

/-- No operand has room for more. -/
theorem callParts_lt (operand : Operand) : (callParts operand).1 < countLimit := by
  have counts (n : Option Int64) : callCount n < countLimit := by
    have fits : ((n.map Int64.toInt).getD 0) < 2 ^ 63 := by
      cases n with
      | none => decide
      | some n => exact Int64.toInt_lt n
    unfold callCount countLimit
    omega
  unfold callParts
  split <;> exact counts _

namespace Operand

variable {operand : Operand} {most : Nat}

/-- What a call carries when it is asked for every result. -/
def everyResult (operand : Operand) : Operand :=
  .tuple [.int (Int64.ofNat (callParts operand).1), .int ((callParts operand).2 ||| 2)]

theorem parts_everyResult (operand : Operand) :
    callParts operand.everyResult = ((callParts operand).1, (callParts operand).2 ||| 2) := by
  refine Prod.ext ?_ rfl
  change callCount (some (Int64.ofNat (callParts operand).1)) = (callParts operand).1
  rw [callCount, Option.map_some, Option.getD_some, toInt_ofNat (callParts_lt operand),
    Int.toNat_natCast]

theorem flags_everyResult (operand : Operand) :
    operand.everyResult.callFlags = { operand.callFlags with multi := true } := by
  rw [callFlags, parts_everyResult, CallFlags.ofInt_or_two]
  rfl

theorem Callable.mono {more : Nat} (h : operand.Callable most) (le : most ≤ more) :
    operand.Callable more := { h with few := h.few.trans le }

theorem Callable.everyResult (h : operand.Callable most) : operand.everyResult.Callable most where
  few := by
    rw [parts_everyResult]
    exact h.few
  spread := by
    rw [flags_everyResult, parts_everyResult]
    exact h.spread

end Operand

/-! ## Spots -/

/-- The points that may be come to at an address. -/
abbrev Spot := Set Point

namespace Spot

/-- Any value may lie on top. -/
def push (σ : Spot) : Spot :=
  {p | ∃ v q, Value.Tame v ∧ q ∈ σ ∧ p = { q with stack := v :: q.stack }}

/-- Anything lies on top, be it a marker. -/
def topped (σ : Spot) : Spot := {p | ∃ v, ∃ q ∈ σ, p = { q with stack := v :: q.stack }}

/-- So many values may lie on top. -/
def above : Nat → Spot → Spot
  | 0, σ => σ
  | n + 1, σ => (above n σ).push

/-- The results of a call lie on top. -/
def given (multi : Bool) (σ : Spot) : Spot :=
  {p | ∃ results q, Accepts multi results ∧ q ∈ σ ∧ p = { q with stack := results ++ q.stack }}

/-- A marker lies on top. -/
def marked (m : Marker) (σ : Spot) : Spot :=
  {p | ∃ q ∈ σ, p = { q with stack := .marker m :: q.stack }}

/-- The items of an array and their number lie on top. -/
def flat (σ : Spot) : Spot :=
  {p | ∃ n items q, items.length = (Int64.toInt n).toNat ∧ (∀ v ∈ items, Value.Tame v) ∧ q ∈ σ ∧
    p = { q with stack := .int n :: items ++ q.stack }}

/-- A receiver is waiting. -/
def receiving (σ : Spot) : Spot := {p | ∃ q ∈ σ, p = { q with receivers := q.receivers + 1 }}

/-- So many arguments of a call lie on top, the last one perhaps spread. -/
def args (count : Nat) (spread : Bool) (σ : Spot) : Spot :=
  if spread then flat (above (count - 1) σ) else above count σ

/-- Between statements nothing is on the stack, and no receiver waits. -/
def level (scopes tries : Nat) : Spot := {⟨[], scopes, tries, 0⟩}

/-- No marker of a label lies above the lowest value. -/
def loose (label : String) (scopes tries : Nat) : Spot :=
  {p | (∀ v ∈ p.stack.dropLast, Exec.isMarkerOf label v = false) ∧ p.scopes = scopes ∧
    p.tries = tries ∧ p.receivers = 0}

variable {σ ρ : Spot} {n m : Nat} {p : Point}

theorem mem_above : p ∈ above n σ ↔ ∃ (vs : List Value) (q : Point), vs.length = n ∧
    (∀ v ∈ vs, v.Tame) ∧ q ∈ σ ∧ p = { q with stack := vs ++ q.stack } := by
  induction n generalizing p with
  | zero =>
    constructor
    · exact fun mem => ⟨[], p, rfl, List.forall_mem_nil _, mem, rfl⟩
    · rintro ⟨vs, q, none, -, mem, rfl⟩
      rw [List.length_eq_zero_iff.1 none]
      exact mem
  | succ n ih =>
    constructor
    · rintro ⟨v, q, tame, mem, rfl⟩
      obtain ⟨vs, q, length, others, inside, rfl⟩ := ih.1 mem
      exact ⟨v :: vs, q, congrArg (· + 1) length, List.forall_mem_cons.2 ⟨tame, others⟩, inside, rfl⟩
    · rintro ⟨vs, q, length, tame, mem, rfl⟩
      cases vs with
      | nil => cases length
      | cons v vs =>
        obtain ⟨first, others⟩ := List.forall_mem_cons.1 tame
        exact ⟨v, { q with stack := vs ++ q.stack }, first,
          ih.2 ⟨vs, q, Nat.succ.inj length, others, mem, rfl⟩, rfl⟩

theorem above_above (n m : Nat) (σ : Spot) : above n (above m σ) = above (n + m) σ := by
  induction n with
  | zero => rw [Nat.zero_add]; rfl
  | succ n ih => rw [Nat.add_right_comm, above, ih]; rfl

theorem push_mono (h : σ ⊆ ρ) : push σ ⊆ push ρ :=
  fun _ ⟨v, q, tame, mem, same⟩ => ⟨v, q, tame, h mem, same⟩

theorem above_mono (h : σ ⊆ ρ) : above n σ ⊆ above n ρ := by
  induction n with
  | zero => exact h
  | succ n ih => exact push_mono ih

/-- One value is what every caller takes. -/
theorem above_subset_given (multi : Bool) : above 1 σ ⊆ given multi σ :=
  fun _ ⟨v, q, tame, mem, same⟩ => ⟨[v], q, .one tame multi, mem, same⟩

/-- A caller that does not take every result gets one value. -/
theorem given_false : given false σ = above 1 σ := by
  refine subset_antisymm ?_ (above_subset_given false)
  rintro _ ⟨_, q, ⟨v, tame, rfl⟩ | ⟨several, -⟩, mem, rfl⟩
  · exact ⟨v, q, tame, mem, rfl⟩
  · cases several

/-- What lies below a value is known. -/
theorem tail_of_above (mem : p ∈ above 1 σ) : { p with stack := p.stack.tail } ∈ σ := by
  obtain ⟨v, q, -, inside, rfl⟩ := mem
  exact inside

theorem receiving_above : receiving (above n σ) = above n (receiving σ) := by
  ext p
  constructor
  · rintro ⟨q, mem, rfl⟩
    obtain ⟨vs, q, length, tame, inside, rfl⟩ := mem_above.1 mem
    exact mem_above.2 ⟨vs, _, length, tame, ⟨q, inside, rfl⟩, rfl⟩
  · intro mem
    obtain ⟨vs, _, length, tame, ⟨q, inside, rfl⟩, rfl⟩ := mem_above.1 mem
    exact ⟨_, mem_above.2 ⟨vs, q, length, tame, inside, rfl⟩, rfl⟩

/-! ### Loose spots -/

variable {label : String} {s t : Nat}

theorem level_subset_loose : level s t ⊆ loose label s t := by
  rintro _ rfl
  exact ⟨nofun, rfl, rfl, rfl⟩

/-- Values of the program may lie on top. -/
theorem loose_append (noVoid : label ≠ "void") {vs rest : List Value} (tame : ∀ v ∈ vs, v.Tame)
    (h : ∀ v ∈ rest.dropLast, Exec.isMarkerOf label v = false) :
    ∀ v ∈ (vs ++ rest).dropLast, Exec.isMarkerOf label v = false := by
  have plain (v : Value) (tame : v.Tame) : Exec.isMarkerOf label v = false := by
    cases v with
    | marker m =>
      cases tame m rfl
      exact beq_false_of_ne fun same => noVoid same.symm
    | _ => rfl
  intro v mem
  rcases eq_or_ne rest [] with rfl | some
  · rw [List.append_nil] at mem
    exact plain v (tame v (List.mem_of_mem_dropLast mem))
  · rw [List.dropLast_append_of_ne_nil some] at mem
    exact (List.mem_append.1 mem).elim (fun mem => plain v (tame v mem)) (h v)

/-- Values may be taken. -/
theorem loose_of_append {taken rest : List Value}
    (h : ∀ v ∈ (taken ++ rest).dropLast, Exec.isMarkerOf label v = false) :
    ∀ v ∈ rest.dropLast, Exec.isMarkerOf label v = false := by
  rcases eq_or_ne rest [] with rfl | some
  · nofun
  · rw [List.dropLast_append_of_ne_nil some] at h
    exact fun v mem => h v (List.mem_append_right _ mem)

/-- Values of the program may lie on top of any others. -/
theorem above_subset_loose (noVoid : label ≠ "void") :
    above n (loose label s t) ⊆ loose label s t := by
  intro p mem
  obtain ⟨vs, q, -, tame, ⟨plain, scopes, tries, receivers⟩, rfl⟩ := mem_above.1 mem
  exact ⟨loose_append noVoid tame plain, scopes, tries, receivers⟩

theorem marked_subset_loose {m : Marker} : marked m (level s t) ⊆ loose label s t := by
  rintro _ ⟨_, rfl, rfl⟩
  exact ⟨nofun, rfl, rfl, rfl⟩

/-- The results of a call may lie on top, if the label is not that of the marker below them. -/
theorem given_subset_loose (noVoid : label ≠ "void") (multi : Bool)
    (results : label = Marker.results.label → σ ⊆ level s t) (within : σ ⊆ loose label s t) :
    given multi σ ⊆ loose label s t := by
  rintro _ ⟨_, ⟨stack, _, _, _⟩, ⟨v, tame, rfl⟩ | ⟨-, vs, -, tame, rfl⟩, mem, rfl⟩
  · obtain ⟨plain, rfl, rfl, rfl⟩ := within mem
    exact ⟨loose_append noVoid (List.forall_mem_singleton.2 tame) plain, rfl, rfl, rfl⟩
  · obtain ⟨plain, rfl, rfl, rfl⟩ := within mem
    refine ⟨?_, rfl, rfl, rfl⟩
    rw [List.append_assoc]
    refine loose_append noVoid tame ?_
    by_cases same : label = Marker.results.label
    · cases results same mem
      nofun
    · intro v inside
      rcases eq_or_ne stack [] with rfl | some
      · cases inside
      · rw [List.dropLast_append_of_ne_nil some] at inside
        rcases List.mem_append.1 inside with marker | below
        · cases List.mem_singleton.1 marker
          exact beq_false_of_ne fun label => same label.symm
        · exact plain v below

end Spot

/-! ## Instructions between spots -/

namespace Instruction

/-- From a spot an instruction is safe, and leads to the next spot or, as a branch, to another. -/
def Goes (i : Instruction) (pre next taken : Spot) : Prop :=
  ∀ p ∈ pre, i.Safe p ∧ (∀ p', i.Falls p p' → p' ∈ next) ∧ ∀ p', i.Jumps p p' → p' ∈ taken

variable {i : Instruction} {pre pre' next next' taken taken' σ : Spot} {operand : Operand}

theorem Goes.mono (h : i.Goes pre next taken) (before : pre' ⊆ pre) (after : next ⊆ next')
    (target : taken ⊆ taken') : i.Goes pre' next' taken' := fun p mem =>
  have ⟨safe, falls, jumps⟩ := h p (before mem)
  ⟨safe, fun p' goes => after (falls p' goes), fun p' goes => target (jumps p' goes)⟩

/-- Nothing is said of an instruction that is not come to. -/
theorem Goes.nowhere : i.Goes ∅ next taken := fun _ mem => absurd mem (Set.notMem_empty _)

/-- What takes and gives values asks for nothing, and does not branch. -/
theorem safe_of_exchange {k m : Nat} (h : i.exchange = some (k, m)) (p : Point) :
    i.Safe p ∧ ∀ p', ¬i.Jumps p p' := by
  obtain ⟨op, operand⟩ := i
  cases op <;> first | exact ⟨trivial, fun _ => id⟩ | cases h

theorem Goes.of_exchange {k m : Nat} (h : i.exchange = some (k, m))
    (leads : ∀ p ∈ pre, k ≤ p.stack.length → ∀ out : List Value, out.length = m →
      (∀ v ∈ out, v.Tame) → { p with stack := out ++ p.stack.drop k } ∈ next) :
    i.Goes pre next taken := by
  refine fun p mem => ⟨(safe_of_exchange h p).1, fun p' falls => ?_, fun p' jumps =>
    absurd jumps ((safe_of_exchange h p).2 p')⟩
  rw [Falls, h] at falls
  obtain ⟨enough, out, length, tame, rfl⟩ := falls
  exact leads p mem enough out length tame

/-- Values on top are taken, and others given. -/
theorem Goes.exchange {k m : Nat} (h : i.exchange = some (k, m)) :
    i.Goes (.above k σ) (.above m σ) taken := by
  refine .of_exchange h fun p mem _ out length tame => ?_
  obtain ⟨vs, q, rfl, -, inside, rfl⟩ := Spot.mem_above.1 mem
  exact Spot.mem_above.2 ⟨out, q, length, tame, inside, by rw [List.drop_left]⟩

variable {label : String} {s t : Nat}

/-- Where values are not counted, any may be taken and given. -/
theorem Goes.loose (noVoid : label ≠ "void") {k m : Nat} (h : i.exchange = some (k, m)) :
    i.Goes (.loose label s t) (.loose label s t) taken := by
  refine .of_exchange h fun p ⟨plain, scopes, tries, receivers⟩ _ out _ tame => ?_
  rw [← List.take_append_drop k p.stack] at plain
  exact ⟨Spot.loose_append noVoid tame (Spot.loose_of_append plain), scopes, tries, receivers⟩

theorem Goes.marker (m : Marker) :
    Goes ⟨.push, .value (.marker m)⟩ σ (.marked m σ) taken := by
  refine fun p mem => ⟨trivial, ?_, nofun⟩
  rintro p' ⟨_, ⟨⟩, rfl⟩
  exact ⟨p, mem, rfl⟩

theorem Goes.dup : Goes ⟨.dup, operand⟩ (.above 1 σ) (.above 2 σ) taken := by
  refine fun p mem => ⟨trivial, ?_, nofun⟩
  rintro p' ⟨v, rest, stack, rfl⟩
  obtain ⟨u, q, tame, inside, rfl⟩ := mem
  cases stack
  exact ⟨_, _, tame, ⟨_, q, tame, inside, rfl⟩, rfl⟩

/-- A value that is not too far down is pushed again. -/
theorem Goes.readStack {n k : Nat} (count : Exec.countOf operand 0 = k) (inside : k < n) :
    Goes ⟨.readStack, operand⟩ (.above n σ) (.above (n + 1) σ) taken := by
  refine fun p mem => ⟨trivial, ?_, nofun⟩
  rintro p' ⟨v, found, rfl⟩
  refine ⟨v, p, ?_, mem, rfl⟩
  obtain ⟨vs, q, rfl, tame, -, rfl⟩ := Spot.mem_above.1 mem
  rw [count] at found
  rw [List.getElem?_append_left inside] at found
  exact tame v (List.mem_of_getElem? found)

/-- From far down a marker may be pushed again. -/
theorem Goes.readStack_any : Goes ⟨.readStack, operand⟩ σ (.topped σ) taken := by
  refine fun p mem => ⟨trivial, ?_, nofun⟩
  rintro p' ⟨v, -, rfl⟩
  exact ⟨v, p, mem, rfl⟩

theorem Goes.flatten : Goes ⟨.flatten, operand⟩ (.above 1 σ) (.flat σ) taken := by
  refine fun p mem => ⟨trivial, ?_, nofun⟩
  rintro p' ⟨v, rest, items, n, stack, length, tame, rfl⟩
  obtain ⟨u, q, -, inside, rfl⟩ := mem
  cases stack
  exact ⟨n, items, q, length, tame, inside, rfl⟩

/-- The stack is cut back to the marker at its bottom. -/
theorem Goes.dropToMarker (name : operand.asName?.getD "" = label) :
    Goes ⟨.dropToMarker, operand⟩ (.loose label s t) (.level s t) taken := by
  rintro ⟨stack, _, _, _⟩ ⟨plain, rfl, rfl, rfl⟩
  refine ⟨trivial, ?_, nofun⟩
  rintro p' ⟨above, v, rest, rfl, -, isMarker, rfl⟩
  rw [show ({ op := .dropToMarker, operand := operand } : Instruction).operand = operand from rfl,
    name] at isMarker
  -- were anything below the marker, the marker would not be at the bottom
  cases rest with
  | nil => rfl
  | cons u rest =>
    have here := plain v (by simp [List.dropLast_append_of_ne_nil])
    cases isMarker.symm.trans here

theorem Goes.setThis :
    Goes ⟨.setThis, operand⟩ (.above 1 σ) (.receiving σ) taken := by
  refine fun p mem => ⟨trivial, ?_, nofun⟩
  rintro p' ⟨v, rest, stack, rfl⟩
  obtain ⟨u, q, -, inside, rfl⟩ := mem
  cases stack
  exact ⟨q, inside, rfl⟩

/-! ### Scopes and protected blocks -/

theorem Goes.pushScope {n : Nat} :
    Goes ⟨.pushScope, operand⟩ (.above n (.level s t)) (.above n (.level (s + 1) t)) taken := by
  refine fun p mem => ⟨trivial, ?_, nofun⟩
  rintro p' rfl
  obtain ⟨vs, q, length, tame, rfl, rfl⟩ := Spot.mem_above.1 mem
  exact Spot.mem_above.2 ⟨vs, _, length, tame, rfl, rfl⟩

theorem Goes.pushScope_loose :
    Goes ⟨.pushScope, operand⟩ (.loose label s t) (.loose label (s + 1) t) taken := by
  rintro p ⟨plain, rfl, tries, receivers⟩
  refine ⟨trivial, ?_, nofun⟩
  rintro p' rfl
  exact ⟨plain, rfl, tries, receivers⟩

/-- As many scopes are left as an instruction says. -/
theorem Goes.popScope {n k : Nat} (count : Exec.countOf operand 1 = k) (positive : 0 < k) :
    Goes ⟨.popScope, operand⟩ (.above n (.level (s + k) t)) (.above n (.level s t)) taken := by
  intro p mem
  obtain ⟨vs, q, length, tame, rfl, rfl⟩ := Spot.mem_above.1 mem
  have left : max (Exec.countOf operand 1) 1 = k := by omega
  refine ⟨show max (Exec.countOf operand 1) 1 ≤ s + k by omega, ?_, nofun⟩
  rintro p' rfl
  refine Spot.mem_above.2 ⟨vs, _, length, tame, rfl, ?_⟩
  simp only [left, Nat.add_sub_cancel]

theorem Goes.tryBlock {target : Nat} : Goes ⟨.tryBlock, .address target⟩ (.level s t)
    (.level s (t + 1)) (.level s (t + 1)) := by
  rintro p rfl
  refine ⟨⟨rfl, target, rfl⟩, ?_, ?_⟩ <;>
  · rintro p' rfl
    rfl

theorem Goes.tryPop : Goes ⟨.tryPop, operand⟩ (.level s (t + 1)) (.level s t) taken := by
  rintro p rfl
  refine ⟨Nat.succ_pos t, ?_, nofun⟩
  rintro p' rfl
  rfl

/-! ### Transfers of control -/

theorem Goes.branch {target : Nat} : Goes ⟨.branch, .address target⟩ σ ∅ σ := by
  refine fun p mem => ⟨⟨target, rfl⟩, nofun, ?_⟩
  rintro p' rfl
  exact mem

theorem Goes.branchIf {op : Opcode} (h : op = .branchTrue ∨ op = .branchFalse) {target : Nat} :
    Goes ⟨op, .address target⟩ (.above 1 σ) σ σ := by
  have pops (p p' : Point) (mem : p ∈ Spot.above 1 σ)
      (goes : ∃ v rest, p.stack = v :: rest ∧ p' = { p with stack := rest }) : p' ∈ σ := by
    obtain ⟨v, rest, stack, rfl⟩ := goes
    obtain ⟨u, q, -, inside, rfl⟩ := mem
    cases stack
    exact inside
  intro p mem
  obtain rfl | rfl := h <;>
    exact ⟨⟨target, rfl⟩, fun p' => pops p p' mem, fun p' => pops p p' mem⟩

/-- A return takes values of the program. -/
theorem Goes.leave {n : Nat} (count : Exec.countOf operand 0 = n) :
    Goes ⟨.leave, operand⟩ (.above n σ) ∅ taken := by
  refine fun p mem => ⟨?_, nofun, nofun⟩
  obtain ⟨vs, q, rfl, tame, -, rfl⟩ := Spot.mem_above.1 mem
  change ∀ v ∈ (vs ++ q.stack).take (Exec.countOf operand 0), v.Tame
  rw [count, List.take_left]
  exact tame

theorem Goes.panic : Goes ⟨.panic, operand⟩ σ ∅ taken := fun _ _ => ⟨trivial, nofun, nofun⟩

/-! ### Calls -/

theorem callFlags_callOperand {count : Nat} (few : count < countLimit) (flags : Int64) :
    (callOperand count flags).callFlags = .ofInt flags := by
  rw [Operand.callFlags, callParts_callOperand few]

/-- A call takes its arguments and the callee, and its receiver if it has one. -/
theorem Goes.callArgs {count : Nat} (few : count < countLimit) {spread : Bool}
    (some : spread = true → 0 < count) (multi receiver : Bool) :
    Goes ⟨.call, callOperand count (CallFlags.mk spread multi receiver).toInt⟩
      (.args count spread (.above 1 (if receiver then .receiving σ else σ))) (.given multi σ)
      taken := by
  have flags : (callOperand count (CallFlags.mk spread multi receiver).toInt).callFlags =
      ⟨spread, multi, receiver⟩ := by rw [callFlags_callOperand few, CallFlags.ofInt_toInt]
  -- what lies below the callee, with the receiver that the call takes
  have below (q : Point) (mem : q ∈ if receiver then Spot.receiving σ else σ) :
      { q with receivers := if receiver then q.receivers - 1 else q.receivers } ∈ σ := by
    cases receiver with
    | false => exact mem
    | true =>
      obtain ⟨q, mem, rfl⟩ := mem
      exact mem
  refine fun p mem => ⟨trivial, ?_, nofun⟩
  rintro p' ⟨whole, results, takes, enough, accepts, rfl⟩
  dsimp only at takes accepts ⊢
  rw [flags] at accepts ⊢
  rw [Operand.CallTakes, flags, callParts_callOperand few] at takes
  dsimp only at takes
  cases spread with
  | false =>
    cases takes
    change p ∈ Spot.above count _ at mem
    rw [Spot.above_above] at mem
    obtain ⟨vs, q, length, -, under, rfl⟩ := Spot.mem_above.1 mem
    refine ⟨results, _, accepts, below q under, ?_⟩
    simp only [← length, List.drop_left]
  | true =>
    obtain ⟨v, rest, n, stack, number, rfl⟩ := takes
    obtain ⟨_, items, q, length, -, inside, rfl⟩ := mem
    rw [Spot.above_above] at inside
    obtain ⟨vs, q, many, -, under, rfl⟩ := Spot.mem_above.1 inside
    cases stack
    cases number
    refine ⟨results, _, accepts, below q under, ?_⟩
    have cut : (Value.int n :: items ++ (vs ++ q.stack)).drop (count - 1 + n.toInt.toNat + 2) =
        q.stack := by
      have positive := some rfl
      rw [← List.append_assoc]
      refine List.drop_left' ?_
      simp only [List.length_append, List.length_cons, length, many]
      omega
    simp only [cut]

/-- A call that leaves one value leaves all results when it is asked for them. -/
theorem Goes.multiple (h : Goes ⟨.call, operand⟩ pre (.above 1 σ) taken) :
    Goes ⟨.call, operand.everyResult⟩ pre (.given true σ) taken' := by
  have parts := operand.parts_everyResult
  have flags := operand.flags_everyResult
  refine fun p mem => ⟨trivial, ?_, nofun⟩
  rintro p' ⟨whole, results, takes, enough, accepts, rfl⟩
  dsimp only at takes accepts ⊢
  rw [flags] at accepts ⊢
  rw [Operand.CallTakes, flags, parts] at takes
  -- where the call leaves one value, what lies below is known
  have one : ({ p with
      stack := .nil :: p.stack.drop whole
      receivers := if operand.callFlags.receiver then p.receivers - 1 else p.receivers } : Point) ∈
        Spot.above 1 σ :=
    (h p mem).2.1 _ ⟨whole, [.nil], takes, enough, .one Value.tame_nil _, rfl⟩
  exact ⟨results, _, accepts, Spot.tail_of_above one, rfl⟩

/-- The call of a launcher: what another call was to take lies on its own function. Where the other
call was passed over there is one value, which the launcher takes as the function. -/
theorem Goes.launch {most : Nat} (callable : operand.Callable most) (room : most + 1 < countLimit)
    (h : Goes ⟨.call, operand⟩ pre (.above 1 (.above 1 (.level s t))) taken) :
    Goes ⟨.call, callOperand ((callParts operand).1 + 1) ((callParts operand).2 &&& ~~~2)⟩
      (pre ∪ .above 1 (.above 1 (.level s t))) (.above 1 (.level s t)) taken' := by
  have few : (callParts operand).1 + 1 < countLimit :=
    (Nat.succ_le_succ callable.few).trans_lt room
  have flags : (callOperand ((callParts operand).1 + 1) ((callParts operand).2 &&& ~~~2)).callFlags =
      { operand.callFlags with multi := false } := by
    rw [callFlags_callOperand few, CallFlags.ofInt_and_not_two]
    rfl
  refine fun p mem => ⟨trivial, ?_, nofun⟩
  rintro p' ⟨whole, results, takes, enough, accepts, rfl⟩
  dsimp only at takes accepts ⊢
  rw [flags] at accepts ⊢
  rw [Operand.CallTakes, flags, callParts_callOperand few] at takes
  dsimp only at takes ⊢
  suffices ({ p with
      stack := p.stack.drop whole
      receivers := if operand.callFlags.receiver then p.receivers - 1 else p.receivers } : Point) ∈
        Spot.level s t by
    rw [← Spot.given_false]
    exact ⟨results, _, accepts, this, rfl⟩
  obtain before | passed := mem
  · have one : ∃ less, whole = less + 1 ∧ operand.CallTakes p.stack less := by
      unfold Operand.CallTakes
      split at takes
      · next spread =>
        obtain ⟨v, rest, n, stack, number, rfl⟩ := takes
        have positive := callable.spread spread
        exact ⟨(callParts operand).1 - 1 + n.toInt.toNat + 2, by omega, by
          rw [if_pos spread]; exact ⟨v, rest, n, stack, number, rfl⟩⟩
      · next single => exact ⟨_, takes, by rw [if_neg single]⟩
    obtain ⟨less, rfl, fewer⟩ := one
    have left : ({ p with
        stack := .nil :: p.stack.drop less
        receivers := if operand.callFlags.receiver then p.receivers - 1 else p.receivers } : Point) ∈
          Spot.above 1 (.above 1 (.level s t)) :=
      (h p before).2.1 _ ⟨less, [.nil], fewer, Nat.le_of_succ_le enough, .one Value.tame_nil _, rfl⟩
    rw [← List.drop_drop, List.drop_one]
    exact Spot.tail_of_above (Spot.tail_of_above left)
  · obtain ⟨u, _, -, ⟨v, _, -, rfl, rfl⟩, rfl⟩ := passed
    have all : whole = 2 := by
      split at takes
      · next spread =>
        obtain ⟨-, -, n, -, -, rfl⟩ := takes
        have positive := callable.spread spread
        simp only [List.length_cons, List.length_nil] at enough
        omega
      · simp only [List.length_cons, List.length_nil] at enough
        omega
    subst all
    simp [Spot.level]

end Instruction

end StackScript
