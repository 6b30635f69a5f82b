import StackScript.Proofs.Calls.Frames

/-!
# Calls and their returns

What a call saves and what a return restores: `call_cases` (a call that enters a function leaves
its frame above the values below the callee) and `leave_ok` (a return cuts the stack back to the
frame, and the results follow). From both, `step_goesOn`: no step breaks the order of the frames.
-/
namespace StackScript

namespace Exec

open Context (FramedAt GoesOn)

variable {c c' : Context} {w w' : World} {s s' : Store}

/-! ## What has been taken -/

theorem pop_ok {v : Value} (h : pop c w s = (((.ok v, c'), w'), s')) :
    ∃ stack, c.stack = stack.push v ∧ c' = { c with stack := stack } := by
  unfold pop at h
  split at h
  · cases h
  · obtain ⟨stack, top, hstack⟩ := @Array.eq_push_of_size_ne_zero _ c.stack (by omega)
    cases h
    exact ⟨stack, by simp [hstack], by simp [hstack]⟩

theorem popValue_ok {v : Value} (h : popValue c w s = (((.ok v, c'), w'), s')) :
    ∃ stack, c.stack = stack.push v ∧ c' = { c with stack := stack } := by
  unfold popValue at h
  split at h
  · cases h
  · obtain ⟨stack, top, hstack⟩ := @Array.eq_push_of_size_ne_zero _ c.stack (by omega)
    dsimp only at h
    split at h
    · cases h
    · cases h
      exact ⟨stack, by simp [hstack], by simp [hstack]⟩

theorem popMany_ok {count : Nat} {vs : List Value}
    (h : popMany count c w s = (((.ok vs, c'), w'), s')) :
    ∃ stack, c.stack = stack ++ vs.toArray ∧ vs.length = count ∧ c' = { c with stack := stack } := by
  unfold popMany at h
  split at h
  · cases h
  · cases h
    refine ⟨c.stack.shrink (c.stack.size - count), ?_, by simp; omega, rfl⟩
    simp only [Array.shrink_eq_take, Array.take_eq_extract, Array.toArray_toList,
      Array.extract_append_extract]
    simp

theorem popValues_ok {count : Nat} {vs : List Value}
    (h : popValues count c w s = (((.ok vs, c'), w'), s')) :
    ∃ stack, c.stack = stack ++ vs.toArray ∧ vs.length = count ∧ c' = { c with stack := stack } := by
  obtain ⟨vs', c₁, w₁, s₁, taken, h⟩ := bind_ok h
  obtain ⟨_, c₂, w₂, s₂, checked, h⟩ := bind_ok h
  cases h
  unfold refuseMarkers at checked
  split at checked
  · cases checked
  · cases checked
    exact popMany_ok taken

/-! ## Calls -/

/-- The caller's state as a call saves it. -/
def saved (c : Context) (multi : Bool) : Frame :=
  { moduleName := c.moduleName, line := c.line, scope := c.scope, code := c.code, pc := c.pc
    fp := c.fp, receivers := c.receivers.size, multi := multi }

/-- `c'` is in a call made from `c`, whose values lie below the frame. -/
structure Entered (multi : Bool) (c c' : Context) : Prop where
  stack : c'.stack = c.stack.push (.frame (saved c multi))
  fp : c'.fp = c.stack.size
  depth : c'.depth = c.depth + 1
  tries : c'.tries = c.tries

theorem callFunction_entered (code : CodeRef) (captured : Option TableRef) (args : List Value)
    (receiver : Option Value) (multi : Bool) (c : Context) (w : World) (s : Store) :
    ∃ c' s', callFunction code captured args receiver multi c w s = (((.ok (), c'), w), s') ∧
      Entered multi c c' :=
  ⟨_, _, rfl, ⟨rfl, by simp, rfl, rfl⟩⟩

/-- How many arguments a call takes, of which its operand counts `count`: if the last one was
spread, the number of its items is above it. -/
def Takes (count : Nat) (flags : CallFlags) (spread : Array Value) (total : Nat) : Prop :=
  if flags.spread then
    ∃ v n, spread = #[v] ∧ v.asInt? = some n ∧ total = count - 1 + n.toInt.toNat
  else spread = #[] ∧ total = count

/-- A call as it stands on the stack: the callee above `below`, then the arguments, then their
number if the last one was spread. -/
structure Site (operand : Operand) (below : Array Value) (callee : Value) (args : List Value)
    (flags : CallFlags) (c : Context) : Prop where
  stack : ∃ spread count, readCall operand = pure (count, flags) ∧
    Takes count flags spread args.length ∧
    c.stack = below.push callee ++ args.toArray ++ spread

theorem readCall_cases (operand : Operand) :
    (∃ count flags, readCall operand = pure (count, flags)) ∨
      readCall operand = wrongOperand .invalidFunctionCall operand := by
  unfold readCall
  split
  · split
    · exact .inl ⟨_, _, rfl⟩
    · exact .inr rfl
  · exact .inl ⟨_, _, rfl⟩

theorem readCall_ok {operand : Operand} {count : Nat} {flags : CallFlags}
    (h : readCall operand c w s = (((.ok (count, flags), c'), w'), s')) :
    readCall operand = pure (count, flags) ∧ c' = c := by
  rcases readCall_cases operand with ⟨n, fs, e⟩ | e
  · rw [e] at h ⊢
    cases h
    exact ⟨rfl, rfl⟩
  · rw [e] at h
    obtain ⟨_, _, _, _, _, h⟩ := bind_ok h
    cases h

theorem spreadCount_ok {count total : Nat} {flags : CallFlags}
    (h : spreadCount count flags c w s = (((.ok total, c'), w'), s')) :
    ∃ stack spread, c.stack = stack ++ spread ∧ c' = { c with stack := stack } ∧
      Takes count flags spread total := by
  unfold Takes
  unfold spreadCount at h
  cases hspread : flags.spread with
  | true =>
    rw [hspread, if_pos rfl] at h
    obtain ⟨v, c₁, w₁, s₁, taken, h⟩ := bind_ok h
    obtain ⟨stack, hstack, rfl⟩ := pop_ok taken
    cases hv : v.asInt? with
    | some n =>
      rw [hv] at h
      cases h
      exact ⟨stack, #[v], by simp [hstack], rfl, by simp [hv]⟩
    | none =>
      rw [hv] at h
      cases h
  | false =>
    rw [hspread] at h
    cases h
    exact ⟨c.stack, #[], by simp, rfl, by simp⟩

/-- Apply a value that was taken from below its arguments. -/
def applyValue (callee : Value) (args : List Value) (receiver : Option Value) (multi : Bool) :
    Exec (Option (PendingCall × Answer)) :=
  match callee with
  | .function code captured => do
    callFunction code captured args receiver multi
    pure none
  | .native f => callNative f args receiver multi
  | .type t => do
    callType t args
    pure none
  | v => do throw (.about .invalidFunctionCall (← ofStore v.typeName))

/-- The receiver of a call, if one was set for it. -/
def receiverOf (flags : CallFlags) : Exec (Option Value) :=
  if flags.receiver then takeReceiver else pure none

theorem call_eq (operand : Operand) : call operand = (do
    let (count, flags) ← readCall operand
    let total ← spreadCount count flags
    let args ← popValues total
    let callee ← popValue
    let receiver ← receiverOf flags
    applyValue callee args receiver flags.multi) := by
  unfold call
  refine bind_congr fun ⟨count, flags⟩ => bind_congr fun total => bind_congr fun args =>
    bind_congr fun callee => ?_
  unfold receiverOf
  cases flags.receiver <;> rfl

theorem applyValue_contained {callee : Value} (h : ∀ code captured, callee ≠ .function code captured)
    (args : List Value) (receiver : Option Value) (multi : Bool) :
    Contained (applyValue callee args receiver multi) := by
  unfold applyValue
  split
  · exact absurd rfl (h _ _)
  · exact contained_rules.callNative _ _ _ _
  · exact (contained_rules.callType _ _).bind fun _ => .pure _
  · exact .bind (.ofStore _) fun _ => .throw _

theorem receiverOf_contained (flags : CallFlags) : Contained (receiverOf flags) := by
  unfold receiverOf
  split
  · exact contained_rules.takeReceiver
  · exact .pure _

/-- What a call takes before it applies the callee. -/
theorem call_prefix {operand : Operand} {r : Except Fault (Option (PendingCall × Answer))}
    (h : call operand c w s = (((r, c'), w'), s')) :
    (c.Keeps c' ∧ ∃ fault, r = .error fault) ∨
      ∃ below callee args flags receiver c₁ w₁ s₁, Site operand below callee args flags c ∧
        c.Keeps c₁ ∧ (∃ receivers, c₁ = { c with stack := below, receivers := receivers }) ∧
        applyValue callee args receiver flags.multi c₁ w₁ s₁ = (((r, c'), w'), s') := by
  rw [call_eq] at h
  rcases bind_cases h with ⟨f, rfl, failed⟩ | ⟨⟨count, flags⟩, c₁, w₁, s₁, read, h₁⟩
  · exact .inl ⟨(contained_rules.readCall _).keeps failed, f, rfl⟩
  obtain ⟨hread, rfl⟩ := readCall_ok read
  rcases bind_cases h₁ with ⟨f, rfl, failed⟩ | ⟨total, c₂, w₂, s₂, counted, h₂⟩
  · exact .inl ⟨(contained_rules.spreadCount _ _).keeps failed, f, rfl⟩
  have k₂ := (contained_rules.spreadCount _ _).keeps counted
  obtain ⟨stack₂, spread, hstack₂, rfl, takes⟩ := spreadCount_ok counted
  rcases bind_cases h₂ with ⟨f, rfl, failed⟩ | ⟨args, c₃, w₃, s₃, taken, h₃⟩
  · exact .inl ⟨k₂.trans ((contained_rules.popValues _).keeps failed), f, rfl⟩
  have k₃ := k₂.trans ((contained_rules.popValues _).keeps taken)
  obtain ⟨stack₃, hstack₃, hargs, rfl⟩ := popValues_ok taken
  rcases bind_cases h₃ with ⟨f, rfl, failed⟩ | ⟨callee, c₄, w₄, s₄, popped, h₄⟩
  · exact .inl ⟨k₃.trans (popValue_contained.keeps failed), f, rfl⟩
  have k₄ := k₃.trans (popValue_contained.keeps popped)
  obtain ⟨stack₄, hstack₄, rfl⟩ := popValue_ok popped
  rcases bind_cases h₄ with ⟨f, rfl, failed⟩ | ⟨receiver, c₅, w₅, s₅, received, h₅⟩
  · exact .inl ⟨k₄.trans ((receiverOf_contained _).keeps failed), f, rfl⟩
  have k₅ := k₄.trans ((receiverOf_contained _).keeps received)
  refine .inr ⟨stack₄, callee, args, flags, receiver, c₅, w₅, s₅,
    ⟨spread, count, hread, hargs ▸ takes, ?_⟩, k₅, ?_, h₅⟩
  · simp only at hstack₃ hstack₄
    rw [hstack₂, hstack₃, hstack₄]
  · unfold receiverOf at received
    cases hflag : flags.receiver <;> rw [hflag] at received <;> cases received <;> exact ⟨_, rfl⟩

/-- A call either leaves the callers alone or enters a function that stands below its arguments. -/
theorem call_cases {operand : Operand} {r : Except Fault (Option (PendingCall × Answer))}
    (h : call operand c w s = (((r, c'), w'), s')) :
    c.Keeps c' ∨ ∃ below code captured args flags receivers,
      Site operand below (.function code captured) args flags c ∧
      c.Keeps { c with stack := below, receivers := receivers } ∧
      Entered flags.multi { c with stack := below, receivers := receivers } c' := by
  rcases call_prefix h with ⟨keeps, _⟩ | ⟨below, callee, args, flags, receiver, c₁, w₁, s₁, site,
    keeps, ⟨receivers, rfl⟩, h⟩
  · exact .inl keeps
  by_cases function : ∃ code captured, callee = .function code captured
  · obtain ⟨code, captured, rfl⟩ := function
    obtain ⟨c₂, s₂, hcall, entered⟩ :=
      callFunction_entered code captured args receiver flags.multi _ w₁ s₁
    have : applyValue (.function code captured) args receiver flags.multi _ w₁ s₁ = _ :=
      bind_of_ok hcall
    rw [this] at h
    cases h
    exact .inr ⟨below, code, captured, args, flags, receivers, site, keeps, entered⟩
  · refine .inl (keeps.trans ((applyValue_contained ?_ _ _ _).keeps h))
    exact fun code captured e => function ⟨code, captured, e⟩

/-! ## Returns -/

theorem popMany_enough {count : Nat} (h : c.base + count ≤ c.stack.size) (w : World) (s : Store) :
    popMany count c w s = (((.ok (c.stack.extract (c.stack.size - count) c.stack.size).toList,
      { c with stack := c.stack.shrink (c.stack.size - count) }), w), s) := by
  unfold popMany
  rw [if_neg (by omega)]

theorem takeFrame_eq {f : Frame} (here : c.stack[c.fp]? = some (.frame f)) (w : World) (s : Store) :
    takeFrame c w s = (((.ok (some f), { c with stack := c.stack.shrink c.fp }), w), s) := by
  have inside : c.fp < c.stack.size := (Array.getElem?_eq_some_iff.1 here).1
  have top : (c.stack.shrink (c.fp + 1)).back? = some (.frame f) := by
    rw [← here, Array.back?_eq_getElem?]
    simp only [Array.shrink_eq_take, Array.take_eq_extract, Array.size_extract,
      Array.getElem?_extract]
    grind
  have rest : (c.stack.shrink (c.fp + 1)).pop = c.stack.shrink c.fp := by
    simp only [Array.shrink_eq_take, Array.take_eq_extract]
    grind
  simp only [takeFrame, top, rest]

/-- Outside calls a return is a stop. -/
theorem leave_outside (shallow : c.depth = 0) (count : Nat) (w : World) (s : Store) :
    leave count c w s = (((.error (.of .stop), c), w), s) := by
  refine (bind_of_ok rfl).trans ?_
  simp only [shallow, if_true]
  rfl

/-- A return takes the results, cuts the stack back below the frame, and goes on in the caller. -/
theorem leave_eq {f : Frame} (deep : 0 < c.depth) (here : c.stack[c.fp]? = some (.frame f))
    (count : Nat) (w : World) (s : Store) :
    leave count c w s =
      if c.stack.size < c.base + count then
        (((.error (.about .stackUnderflow (Decimal.ofNat count)), c), w), s)
      else
        pushResults (c.stack.extract (c.stack.size - count) c.stack.size).toList f.multi
          (restore f { c with stack := c.stack.shrink c.fp }) w s := by
  have base : c.base = c.fp + 1 := by simp [Context.base, deep]
  have zero : ¬c.depth = 0 := by omega
  unfold leave
  refine (bind_of_ok rfl).trans ?_
  rw [if_neg zero]
  by_cases low : c.stack.size < c.base + count
  · rw [if_pos low]
    exact bind_of_error (by simp [popMany, low])
  · rw [if_neg low]
    refine (bind_of_ok (popMany_enough (by omega) w s)).trans ?_
    have kept : (c.stack.shrink (c.stack.size - count))[c.fp]? = some (.frame f) := by
      rw [← here]
      simp only [Array.shrink_eq_take, Array.take_eq_extract, Array.getElem?_extract]
      grind
    have cut : (c.stack.shrink (c.stack.size - count)).shrink c.fp = c.stack.shrink c.fp := by
      simp only [Array.shrink_eq_take, Array.take_eq_extract]
      grind
    refine (bind_of_ok (takeFrame_eq kept w s)).trans ?_
    simp only [cut]
    exact bind_of_ok rfl

/-- The results of a call as they lie above the caller's values. -/
inductive Results : (vs : List Value) → (multi : Bool) → (results : Array Value) → Prop
  | void {multi : Bool} : Results [] multi #[.marker .void]
  | one {v : Value} {multi : Bool} : Results [v] multi #[v]
  /-- Several results above their marker, the first one on top. -/
  | several {vs : List Value} (some : 2 ≤ vs.length) :
      Results vs true (#[.marker .results] ++ vs.reverse.toArray)

theorem pushResults_ok {vs : List Value} {multi : Bool}
    (h : pushResults vs multi c w s = (((.ok (), c'), w'), s')) :
    ∃ results, Results vs multi results ∧ c' = { c with stack := c.stack ++ results } := by
  unfold pushResults at h
  split at h
  · cases h
    exact ⟨_, .void, by simp⟩
  · cases h
    exact ⟨_, .one, by simp⟩
  · rename_i none one
    cases multi with
    | false => cases h
    | true =>
      cases h
      refine ⟨_, .several ?_, by simp⟩
      match vs with
      | [] => exact absurd rfl none
      | [v] => exact absurd rfl (one v)
      | _ :: _ :: _ => simp

/-- A return that succeeds. -/
theorem leave_ok {f : Frame} {count : Nat} (deep : 0 < c.depth)
    (here : c.stack[c.fp]? = some (.frame f))
    (h : leave count c w s = (((.ok (), c'), w'), s')) :
    ∃ vs results, vs <:+ c.stack.toList ∧ Results vs f.multi results ∧
      c' = { restore f c with stack := c.stack.shrink c.fp ++ results } := by
  rw [leave_eq deep here] at h
  split at h
  · cases h
  · obtain ⟨results, hresults, rfl⟩ := pushResults_ok h
    refine ⟨_, results, ?_, hresults, rfl⟩
    rw [Array.toList_extract, List.extract_eq_take_drop, List.take_of_length_le (by simp)]
    exact List.drop_suffix _ _

/-! ## Steps -/

theorem leave_goesOn {places : List Nat} (h : FramedAt places c) (count : Nat) (w : World)
    (s : Store) : GoesOn places c (after (leave count) c w s) := by
  by_cases shallow : c.depth = 0
  · rw [after, leave_outside shallow]
    exact h.goesOn (.refl c)
  · obtain ⟨place, rest, rfl, f, here⟩ := h.frame (by omega)
    rw [after, leave_eq (by omega) here]
    split
    · exact h.goesOn (.refl c)
    · exact GoesOn.keeps ⟨rest, h.leave here rfl rfl rfl rfl⟩ (contained_rules.pushResults _ _ _ w s)

theorem call_goesOn {places : List Nat} (h : FramedAt places c) (operand : Operand) (w : World)
    (s : Store) : GoesOn places c (after (call operand) c w s) := by
  rcases hr : call operand c w s with ⟨⟨⟨r, c'⟩, w'⟩, s'⟩
  rw [after, hr]
  rcases call_cases hr with keeps | ⟨_, _, _, _, _, receivers, _, keeps, entered⟩
  · exact h.goesOn keeps
  · exact .of_keeps h keeps fun h => ⟨_, h.call entered.stack rfl entered.fp entered.depth entered.tries⟩

theorem enterTry_goesOn {places : List Nat} (h : FramedAt places c) (operand : Operand) (w : World)
    (s : Store) : GoesOn places c (after (enterTry operand) c w s) := by
  unfold enterTry
  rcases hr : (addressOf operand) c w s with ⟨⟨⟨r, c'⟩, w'⟩, s'⟩
  have keeps := (contained_rules.addressOf _).keeps hr
  cases r with
  | error f =>
    rw [after, bind_of_error hr]
    exact h.goesOn keeps
  | ok a =>
    rw [after, bind_of_ok hr]
    exact .of_keeps h keeps fun h => ⟨places, h.enterTry rfl rfl rfl, .inl (List.suffix_refl _),
      fun _ _ _ _ _ => rfl⟩

theorem leaveTry_eq (c : Context) (w : World) (s : Store) :
    leaveTry c w s = match c.tries with
      | [] => (((.error (.of .invalidTryState), c), w), s)
      | _ :: rest => (((.ok (), { c with tries := rest }), w), s) := by
  refine (bind_of_ok rfl).trans ?_
  split <;> rename_i e <;> rw [e] <;> rfl

theorem leaveTry_goesOn {places : List Nat} (h : FramedAt places c) (w : World) (s : Store) :
    GoesOn places c (after leaveTry c w s) := by
  rw [after, leaveTry_eq]
  split
  · exact h.goesOn (.refl c)
  · rename_i htries
    exact ⟨places, h.leaveTry htries, .inl (List.suffix_refl _), fun _ _ _ _ _ => rfl⟩

theorem perform_goesOn {places : List Nat} (h : FramedAt places c) (i : Instruction) (w : World)
    (s : Store) : GoesOn places c (after (perform i) c w s) := by
  cases hd : delimits i.op with
  | false => exact h.goesOn (perform_contained hd c w s)
  | true =>
    obtain ⟨op, operand⟩ := i
    cases op <;> cases hd
    · exact h.goesOn (.refl c)
    · exact leave_goesOn h _ w s
    · exact leaveTry_goesOn h w s
    · exact enterTry_goesOn h _ w s

/-- What a step does, by what is fetched. -/
theorem step_eq (c : Context) (w : World) (s : Store) :
    step c w s = match (s.code c.code).instructions[c.pc]? with
      | some i =>
        (if i.op == .call then do
          match ← call i.operand with
          | some (call, answer) => pure (.asks call answer)
          | none => pure .goesOn
        else do
          perform i
          pure .goesOn : Exec Progress) { c with pc := c.pc + 1 } w s
      | none =>
        (if 0 < c.depth then do
          leave 0
          pure .goesOn
        else pure .finished : Exec Progress) c w s := by
  cases hi : (s.code c.code).instructions[c.pc]? with
  | some i =>
    have : fetch c w s = (((.ok (some i), { c with pc := c.pc + 1 }), w), s) := by
      simp only [fetch, hi]
    exact bind_of_ok this
  | none =>
    have : fetch c w s = (((.ok none, c), w), s) := by simp only [fetch, hi]
    refine (bind_of_ok this).trans ?_
    exact bind_of_ok rfl

/-- Everything that a step which does not fail can be. -/
theorem step_cases {p : Progress} (h : step c w s = (((.ok p, c'), w'), s')) :
    (∃ operand r, (s.code c.code).instructions[c.pc]? = some ⟨.call, operand⟩ ∧
      call operand { c with pc := c.pc + 1 } w s = (((.ok r, c'), w'), s')) ∨
    (∃ i : Instruction, (s.code c.code).instructions[c.pc]? = some i ∧ i.op ≠ .call ∧
      perform i { c with pc := c.pc + 1 } w s = (((.ok (), c'), w'), s')) ∨
    ((s.code c.code).instructions[c.pc]? = none ∧ 0 < c.depth ∧
      leave 0 c w s = (((.ok (), c'), w'), s')) ∨
    ((s.code c.code).instructions[c.pc]? = none ∧ c.depth = 0 ∧ c' = c) := by
  rw [step_eq] at h
  cases hi : (s.code c.code).instructions[c.pc]? with
  | some i =>
    rw [hi] at h
    dsimp only at h
    split at h
    · rename_i isCall
      obtain ⟨op, operand⟩ := i
      cases (eq_of_beq isCall : op = .call)
      obtain ⟨r, c₁, w₁, s₁, called, h⟩ := bind_ok h
      refine .inl ⟨operand, r, rfl, ?_⟩
      split at h <;> (cases h; exact called)
    · rename_i noCall
      obtain ⟨_, c₁, w₁, s₁, performed, h⟩ := bind_ok h
      cases h
      exact .inr (.inl ⟨i, rfl, fun e => noCall (beq_iff_eq.2 e), performed⟩)
  | none =>
    rw [hi] at h
    dsimp only at h
    split at h
    · rename_i deep
      obtain ⟨_, c₁, w₁, s₁, left, h⟩ := bind_ok h
      cases h
      exact .inr (.inr (.inl ⟨rfl, deep, left⟩))
    · rename_i shallow
      cases h
      exact .inr (.inr (.inr ⟨rfl, by omega, rfl⟩))

/-- Only calls and returns change the number of active calls. -/
theorem perform_depth {i : Instruction} (noCall : i.op ≠ .call)
    (done : perform i c w s = (((.ok (), c'), w'), s')) :
    c'.depth = c.depth ∨ ∃ count, leave count c w s = (((.ok (), c'), w'), s') := by
  cases hd : delimits i.op with
  | false => exact .inl ((perform_contained hd).keeps done).depth
  | true =>
    obtain ⟨op, operand⟩ := i
    cases op <;> cases hd
    · exact absurd rfl noCall
    · exact .inr ⟨_, done⟩
    · change leaveTry c w s = _ at done
      rw [leaveTry_eq] at done
      split at done <;> cases done
      exact .inl rfl
    · obtain ⟨a, _, _, _, addressed, done⟩ := bind_ok done
      cases done
      exact .inl ((contained_rules.addressOf _).keeps addressed).depth

/-- A return that succeeds leaves one call. -/
theorem leave_depth {places : List Nat} (h : FramedAt places c) {count : Nat}
    (done : leave count c w s = (((.ok (), c'), w'), s')) : c'.depth + 1 = c.depth := by
  by_cases shallow : c.depth = 0
  · rw [leave_outside shallow] at done
    cases done
  · obtain ⟨_, _, _, f, here⟩ := h.frame (by omega)
    obtain ⟨_, _, _, _, rfl⟩ := leave_ok (by omega) here done
    simp only [restore]
    omega

/-- A step enters one call, leaves one or does neither. -/
theorem step_depth {places : List Nat} (h : FramedAt places c) {p : Progress}
    (done : step c w s = (((.ok p, c'), w'), s')) :
    c'.depth = c.depth ∨
    (∃ pc count, leave count { c with pc := pc } w s = (((.ok (), c'), w'), s') ∧
      c'.depth + 1 = c.depth) ∨
    ∃ operand below code captured args flags receivers,
      (s.code c.code).instructions[c.pc]? = some ⟨.call, operand⟩ ∧
      Site operand below (.function code captured) args flags c ∧
      c.Keeps { c with pc := c.pc + 1, stack := below, receivers := receivers } ∧
      Entered flags.multi { c with pc := c.pc + 1, stack := below, receivers := receivers } c' := by
  rcases step_cases done with ⟨operand, r, found, called⟩ | ⟨i, _, noCall, performed⟩ |
    ⟨_, _, left⟩ | ⟨_, _, rfl⟩
  · rcases call_cases called with keeps | ⟨below, code, captured, args, flags, receivers, site,
      keeps, entered⟩
    · exact .inl keeps.depth
    · refine .inr (.inr ⟨operand, below, code, captured, args, flags, receivers, found,
        ⟨site.stack⟩, ?_, entered⟩)
      exact (Context.Keeps.at c _).trans keeps
  · rcases perform_depth noCall performed with same | ⟨count, left⟩
    · exact .inl same
    · have less := leave_depth (h.keeps (.at c (c.pc + 1))).1 left
      exact .inr (.inl ⟨_, count, left, less⟩)
  · exact .inr (.inl ⟨_, 0, left, leave_depth h left⟩)
  · exact .inl rfl

/-- A count in a fault is written in digits. -/
theorem ofNat_ne_of_mem {text : String} (ch : Char) (mem : ch ∈ text.toList)
    (noDigit : ch.isDigit = false) (n : Nat) : Decimal.ofNat n ≠ text := by
  rintro rfl
  have digit := Nat.isDigit_of_mem_toDigits (by decide) (by decide)
    (show ch ∈ Nat.toDigits 10 n by simpa [Decimal.ofNat, Decimal.digits] using mem)
  rw [digit] at noDigit
  cases noDigit

theorem pushResults_fault {vs : List Value} {multi : Bool} {f : Fault}
    (h : pushResults vs multi c w s = (((.error f, c'), w'), s')) : f.kind = .multipleResults := by
  unfold pushResults at h
  split at h
  · cases h
  · cases h
  · cases multi <;> cases h
    rfl

/-- A return finds the frame of its call. -/
theorem leave_finds {places : List Nat} (h : FramedAt places c) (count : Nat) (w : World)
    (s : Store) : (leave count c w s).1.1.1 ≠ .error (.about .stackUnderflow "call frame") := by
  intro failed
  by_cases shallow : c.depth = 0
  · rw [leave_outside shallow] at failed
    cases failed
  · obtain ⟨place, rest, rfl, f, here⟩ := h.frame (by omega)
    rw [leave_eq (by omega) here] at failed
    split at failed
    · have same := congrArg (·.context) (Except.error.inj failed)
      exact ofNat_ne_of_mem 'c' (by decide) (by decide) count (Option.some.inj same)
    · rcases hr : pushResults _ f.multi _ w s with ⟨⟨⟨r, c'⟩, w'⟩, s'⟩
      rw [hr] at failed
      cases failed
      cases pushResults_fault hr

theorem goesOn_bind {places : List Nat} {α β : Type} {m : Exec α} {f : α → Exec β}
    (h : GoesOn places c (after m c w s)) (hf : ∀ a, Contained (f a)) :
    GoesOn places c (after (m >>= f) c w s) := by
  rcases hr : m c w s with ⟨⟨⟨r, c'⟩, w'⟩, s'⟩
  rw [after, hr] at h
  cases r with
  | error f =>
    rw [after, bind_of_error hr]
    exact h
  | ok a =>
    rw [after, bind_of_ok hr]
    exact h.keeps (hf a c' w' s')

/-- A step keeps the frames in order, whatever the code. -/
theorem step_goesOn {places : List Nat} (h : FramedAt places c) (w : World) (s : Store) :
    GoesOn places c (after step c w s) := by
  rw [after, step_eq]
  have fetched : c.Keeps { c with pc := c.pc + 1 } := .at c _
  split
  · refine .of_keeps h fetched fun h => ?_
    split
    · refine goesOn_bind (call_goesOn h _ w s) fun r => ?_
      split <;> exact .pure _
    · exact goesOn_bind (perform_goesOn h _ w s) fun _ => .pure _
  · split
    · exact goesOn_bind (leave_goesOn h 0 w s) fun _ => .pure _
    · exact h.goesOn (.refl c)

end Exec

end StackScript
