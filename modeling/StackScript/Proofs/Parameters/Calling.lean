import StackScript.Proofs.Calls.Return
import StackScript.Proofs.Parameters.Emitting
import StackScript.Proofs.Parameters.Binding
import StackScript.CommandLine
import StackScript.Proofs.Settling.Units

/-!
# Arguments of calls

An array whose items are the last arguments of a call is taken apart right before the call, and the
number of its items lies above them. So the call finds the stack as if the items had been written
out, and does the same.

Main statements: `call_spread` and `arguments_pass`.
-/
namespace StackScript

/-! ## Operands of calls -/

/-- What a call is told is what its operand was made of. -/
theorem readCall_callOperand {count : Nat} (few : count < countLimit) (flags : CallFlags) :
    Exec.readCall (callOperand count flags.toInt) = pure (count, flags) := by
  have number : (Int64.ofNat count).toInt.toNat = count := by
    rw [toInt_ofNat few, Int.toNat_natCast]
  unfold callOperand
  split
  · rename_i plain
    have none : flags = {} := by rw [← flags.ofInt_toInt, plain]; decide
    simp only [Exec.readCall, callCount, Operand.asInt?, Option.map_some, Option.getD_some, number, none]
  · simp only [Exec.readCall, List.head?_cons, Option.bind_some, Operand.asInt?, number,
      List.getElem?_cons_succ, List.getElem?_cons_zero, Option.getD_some, CallFlags.ofInt_toInt]

/-! ## At run time -/

namespace Exec

variable {c : Context} {w : World} {s : Store} {pc : Nat} {stack items : Array Value} {r : ArrayRef}
variable (high : c.base ≤ stack.size) (held : (s.array r).items = items)

include high held

/-- An array is replaced by its items and their number. -/
theorem flatten_array (few : items.size < itemLimit) :
    flatten (c.at pc (stack.push (.array r))) w s =
      (((.ok (), c.at pc ((stack ++ items).push (.int (Int64.ofNat items.size)))), w), s) := by
  have all : pushAll items.toList (c.at pc stack) w s =
      (((.ok (), c.at pc (stack ++ items)), w), s) := by
    rw [pushAll, Array.foldl_toList, Array.foldl_push_eq_append rfl, Array.map_id']
    rfl
  refine (bind_of_ok (Does.popValue (c := c) (w := w) high (.array r) pc s)).trans ?_
  refine (bind_of_ok (a := s.array r) rfl).trans ?_
  dsimp only
  rw [held, if_neg (Nat.not_le_of_lt few)]
  exact bind_of_ok all

/-- A call whose last argument is an array that is spread does what the call does that is given the
items in its place. -/
theorem call_spread (args : List Value) (flags : CallFlags) (short : args.length + 1 < countLimit)
    (few : args.length + items.size < countLimit) :
    (do flatten; call (callOperand (args.length + 1) { flags with spread := true }.toInt))
        (c.at pc ((stack ++ args.toArray).push (.array r))) w s =
      call (callOperand (args.length + items.size) { flags with spread := false }.toInt)
        (c.at pc (stack ++ args.toArray ++ items)) w s := by
  let all := stack ++ args.toArray ++ items
  let count : Value := .int (Int64.ofNat items.size)
  have high : c.base ≤ (stack ++ args.toArray).size := by simp; omega
  have limited : items.size < itemLimit := Nat.lt_of_le_of_lt (Nat.le_add_left ..) few
  have number : (Int64.ofNat items.size).toInt.toNat = items.size := by
    rw [toInt_ofNat limited, Int.toNat_natCast]
  -- the number of the items is taken from the stack again, and the rest is the same
  have counts : spreadCount (args.length + 1) { flags with spread := true } (c.at pc (all.push count)) w s =
      (((.ok (args.length + items.size), c.at pc all), w), s) := by
    have taken : pop (c.at pc (all.push count)) w s = (((.ok count, c.at pc all), w), s) := by
      unfold pop
      rw [if_neg (by simp [all] at high ⊢; omega)]
      simp [Context.at]
    refine (bind_of_ok taken).trans ?_
    change (((Except.ok (args.length + (Int64.ofNat items.size).toInt.toNat), _), _), _) = _
    rw [number]
  refine (bind_of_ok (flatten_array high held limited)).trans ?_
  rw [call_eq, call_eq, readCall_callOperand short, readCall_callOperand few, pure_bind, pure_bind]
  exact bind_of_ok counts

end Exec

/-! ## In a source -/

/-- A compiler that has read a token. -/
def Compiler.skipped (c : Compiler) : Compiler := { c with cursor := c.cursor.skip }

/-- A compiler that has read the parenthesis before the arguments of a call. -/
def Compiler.inParentheses (c : Compiler) : Compiler := { c.skipped with noStructLiteral := false }

namespace CompileM

/-- Expressions are compiled one after the other, each but the first one behind a comma. -/
inductive Arguments (rules : Nested) (b : Compiler) : Nat → Compiler → Prop
  | none : Arguments rules b 0 b
  | first {c : Compiler} (compiled : rules.expression b = (.ok (), c)) : Arguments rules b 1 c
  | next {count : Nat} {c c' : Compiler} (before : Arguments rules b (count + 1) c)
      (comma : c.cursor.isNext "," = true) (compiled : rules.expression c.skipped = (.ok (), c')) :
      Arguments rules b (count + 2) c'

/-- What has been emitted between the parentheses of a call: so many arguments, and then, if an
ellipsis follows the last one, that its array is taken apart. -/
inductive Given (rules : Nested) (b : Compiler) : Nat × Bool → Compiler → Prop
  | plain {count : Nat} {c : Compiler} (given : Arguments rules b count c)
      (ends : 0 < count → c.cursor.isNext "..." = false) : Given rules b (count, false) c
  | spread {count : Nat} {c c' : Compiler} (given : Arguments rules b (count + 1) c)
      (ellipsis : c.cursor.isNext "..." = true)
      (emitted : c'.draft.code.instructions = c.draft.code.instructions.push ⟨.flatten, .none⟩) :
      Given rules b (count + 1, true) c'

/-- What has been emitted when the arguments of a call have ended. -/
def HandedOver (rules : Nested) (b : Compiler) (passed : Nat × Bool) (c' : Compiler) : Prop :=
  ∃ c, Arguments rules b passed.1 c ∧ c.cursor.isNext "..." = passed.2 ∧
    (passed.2 = true → 0 < passed.1) ∧ c'.draft.code.instructions =
      c.draft.code.instructions ++ if passed.2 then #[⟨.flatten, .none⟩] else #[]

section

variable {α : Type} {rules : Nested} {b c c' : Compiler} {passed : Nat × Bool} {P : Compiler → Prop}

theorem isNext_unique {text other : String} (apart : text ≠ other) (ahead : c.cursor.isNext text = true) :
    c.cursor.isNext other = false := by
  rw [Token.Cursor.isNext, Token.is, Bool.and_eq_true, beq_iff_eq] at *
  rw [ahead.2, beq_eq_false_iff_ne.2 apart, Bool.and_false]

theorem Given.done (h : Given rules b passed c) (none : passed.1 = 0 → c.cursor.isNext ")" = true)
    (same : c'.draft.code = c.draft.code) : HandedOver rules b passed c' := by
  cases h with
  | @plain count _ given ends =>
    have last : c.cursor.isNext "..." = false := by
      rcases Nat.eq_zero_or_pos count with zero | some
      · exact isNext_unique (by decide) (none zero)
      · exact ends some
    refine ⟨c, given, last, nofun, ?_⟩
    rw [same, if_neg Bool.false_ne_true, Array.append_empty]
  | spread given ellipsis emitted =>
    refine ⟨_, given, ellipsis, fun _ => Nat.succ_pos _, ?_⟩
    rw [same, emitted, if_pos rfl, Array.push_eq_append]

theorem accept_yields (text : String) : Yields P (accept text) fun found c' =>
    ∃ c, P c ∧ c.cursor.isNext text = found ∧ c' = if found then c.skipped else c := by
  intro c holds found c' run
  cases ahead : c.cursor.isNext text with
  | false =>
    cases (accept_other ahead).symm.trans run
    exact ⟨c, holds, ahead, rfl⟩
  | true =>
    have next : isNext text c = (.ok true, c) := congrArg (fun found => (Except.ok found, c)) ahead
    have read : accept text c = (.ok true, c.skipped) := bind_of_ok next
    cases read.symm.trans run
    exact ⟨c, holds, ahead, rfl⟩

theorem expect_yields (text : String) : Yields P (expect text) fun _ c' =>
    ∃ c, P c ∧ c.cursor.isNext text = true ∧ c' = c.skipped := by
  refine (accept_yields text).bind fun found => .ite (fun _ => .refuses (fail_refuses _ (by nofun)))
    fun read => ?_
  obtain rfl : found = true := by simpa using read
  exact .pure fun _ => id

theorem emitOp_yields (op : Opcode) : Yields P (emitOp op) fun _ c' =>
    ∃ c, P c ∧ c'.draft.code.instructions = c.draft.code.instructions.push ⟨op, .none⟩ := by
  intro c holds _ c' run
  obtain ⟨code, emitted, rfl⟩ := editCode_ok (f := (·.emit op .none)) run
  unfold Code.emit at emitted
  split at emitted <;> cases emitted
  exact ⟨c, holds, rfl⟩

theorem atEnd_yields : Yields P atEnd fun _ => P := by
  rintro c holds _ _ ⟨⟩
  exact holds

/-- An argument, where the next one is to be compiled. -/
theorem argument_yields {count : Nat} :
    Yields (fun c => ∀ c', rules.expression c = (.ok (), c') → Arguments rules b (count + 1) c') (do
      rules.expression
      let spread ← accept "..."
      if spread then emitOp .flatten
      if ← atEnd then fail (.missing ")")
      Pure.pure (Turn.again (count + 1, spread)) : CompileM (Turn (Nat × Bool) (Nat × Bool)))
      (AfterTurn (Given rules b) (HandedOver rules b)) := by
  have ends (spread : Bool) : Yields (Given rules b (count + 1, spread)) (do
      if ← atEnd then fail (.missing ")")
      Pure.pure (Turn.again (count + 1, spread)) : CompileM (Turn (Nat × Bool) (Nat × Bool)))
      (AfterTurn (Given rules b) (HandedOver rules b)) :=
    atEnd_yields.bind fun _ => .guarded (fail_refuses _ (by nofun)) fun _ => .pure fun _ => id
  refine .bind (Q := fun _ => Arguments rules b (count + 1)) (fun c ready _ c' run => ready c' run)
    fun _ => (accept_yields "...").bind fun spread => ?_
  cases spread with
  | false =>
    refine (ends false).before ?_
    rintro _ ⟨c, given, other, rfl⟩
    exact .plain given fun _ => other
  | true =>
    refine ((emitOp_yields .flatten).after ?_).bind fun _ => ends true
    rintro _ c' ⟨_, ⟨c, given, ellipsis, rfl⟩, emitted⟩
    exact .spread given ellipsis emitted

/-- What is compiled next is the next argument. -/
theorem Given.argument {count : Nat} (h : Given rules b (count, false) c) :
    (count = 0 → ∀ c', rules.expression c = (.ok (), c') → Arguments rules b (count + 1) c') ∧
    (0 < count → c.cursor.isNext "," = true → ∀ c', rules.expression c.skipped = (.ok (), c') →
      Arguments rules b (count + 1) c') := by
  cases h with
  | plain given ends =>
    cases given with
    | none => exact ⟨fun _ c' compiled => .first compiled, fun some => absurd some (Nat.lt_irrefl 0)⟩
    | first compiled => exact ⟨nofun, fun _ comma c' next => .next (.first compiled) comma next⟩
    | next before comma compiled =>
      exact ⟨nofun, fun _ comma' c' next => .next (.next before comma compiled) comma' next⟩

/-- A turn between the parentheses: they are closed, or another argument is compiled. -/
theorem argumentTurn_yields (count : Nat) (spread : Bool) :
    Yields (Given rules b (count, spread)) (do
      if ← accept ")" then return .done (count, spread)
      if 0 < count then
        expect ","
        if ← accept ")" then return .done (count, spread)
      if spread then fail .unexpectedToken
      rules.expression
      let spread ← accept "..."
      if spread then emitOp .flatten
      if ← atEnd then fail (.missing ")")
      Pure.pure (.again (count + 1, spread)) : CompileM (Turn (Nat × Bool) (Nat × Bool)))
      (AfterTurn (Given rules b) (HandedOver rules b)) := by
  refine (accept_yields ")").bind fun closed => .ite (fun isClosed => .pure ?_) fun isOpen => ?_
  · rintro _ ⟨c, between, closes, rfl⟩
    exact between.done (fun _ => closes.trans isClosed) (by rw [if_pos isClosed]; rfl)
  refine .before (P := Given rules b (count, spread)) ?_ (.ite (fun some => ?_) fun none => ?_)
  · rintro _ ⟨c, between, -, rfl⟩
    rwa [if_neg isOpen]
  · refine (expect_yields ",").bind fun _ => (accept_yields ")").bind fun closed =>
      .ite (fun isClosed => .pure ?_) fun isOpen => .guarded (fail_refuses _ (by nofun))
        fun unspread => argument_yields.before ?_
    · rintro _ ⟨_, ⟨c, between, -, rfl⟩, -, rfl⟩
      exact between.done (fun zero => absurd zero (Nat.ne_of_gt some)) (by rw [if_pos isClosed]; rfl)
    · rintro _ ⟨_, ⟨c, between, comma, rfl⟩, -, rfl⟩
      rw [if_neg isOpen]
      rw [Bool.eq_false_iff.2 unspread] at between
      exact between.argument.2 some comma
  · refine .guarded (fail_refuses _ (by nofun)) fun unspread => argument_yields.before fun c between => ?_
    rw [Bool.eq_false_iff.2 unspread] at between
    exact between.argument.1 (Nat.eq_zero_of_not_pos none)

/-- Between the parentheses of a call the arguments are compiled one after the other. -/
theorem arguments_pass {passed : Nat × Bool} (run : arguments rules b = (.ok passed, c')) :
    b.cursor.isNext "(" = true ∧ HandedOver rules b.inParentheses passed c' := by
  obtain ⟨_, _, opened, run⟩ := bind_ok run
  obtain ⟨_, rfl, opens, rfl⟩ := expect_yields (P := (b = ·)) "(" b rfl _ _ opened
  refine ⟨opens, ?_⟩
  obtain ⟨_, _, ⟨⟩, run⟩ := bind_ok run
  obtain ⟨_, _, ⟨⟩, run⟩ := bind_ok run
  obtain ⟨_, c, turns, run⟩ := bind_ok run
  obtain ⟨_, _, ⟨⟩, run⟩ := bind_ok run
  cases run
  have none : Given rules b.inParentheses (0, false) b.inParentheses :=
    .plain .none fun some => absurd some (Nat.lt_irrefl 0)
  have passes : HandedOver rules b.inParentheses passed c := by
    refine Yields.repeatTurns (R := HandedOver rules b.inParentheses) ?_ (0, false) _ none _ _ turns
    rintro ⟨count, spread⟩
    exact argumentTurn_yields count spread
  exact passes

/-- A call that is emitted takes as many values as there are arguments. Their code stands right before
it, but that the array of the last one is taken apart in between if it is spread. -/
theorem call_passes {flags : CallFlags} (run : (do
      let (count, spread) ← arguments rules
      emitCall count { flags with spread := spread }) b = (.ok (), c')) :
    b.cursor.isNext "(" = true ∧ ∃ passed c, HandedOver rules b.inParentheses passed c ∧
      c'.draft.code.instructions = c.draft.code.instructions.push
        ⟨.call, callOperand passed.1 { flags with spread := passed.2 }.toInt⟩ := by
  obtain ⟨passed, c, ran, run⟩ := bind_ok run
  obtain ⟨opens, passes⟩ := arguments_pass ran
  have run : editCode (·.emit .call (callOperand passed.1 { flags with spread := passed.2 }.toInt)) c = _ := run
  obtain ⟨code, emitted, rfl⟩ := editCode_ok run
  unfold Code.emit at emitted
  split at emitted <;> cases emitted
  exact ⟨opens, passed, c, passes, rfl⟩

end

end CompileM

/-!
## Calls reach parameters

A call enters a function in a new table that holds the arguments. The prologue first checks their
number against the declaration, and then binds one parameter after the other. What becomes of an
argument depends on the declared type, on the strictness that the function was compiled under and on
the one of the run.

Main statements: `callFunction_fresh` (how a function is entered), `Declaration.prologue_runs` (what its
prologue does), and `Compiler.Unfailed.arguments_reach_parameters`.
-/

/-! ## The table of a call -/

variable {s t : Store} {r : TableRef} {name : String} {v : Value}

theorem setAlways_rebinds (there : r.index < s.tables.size)
    (fresh : (s.table r).binding? name = none) :
    s.Rebinds (r.setAlways name v s) r name (some { value := v }) := by
  have does : (TableOp.setAlways r name v).Does s (.ok ()) (r.setAlways name v s) := TableOp.setAlways_does there
  cases does with
  | added asked => cases asked
  | rebound asked done =>
    cases asked with
    | declare => exact done
    | overwrite found => exact absurd (fresh.symm.trans found) nofun

/-- A function is called in a table that is new. -/
theorem calleeScope_new (unit : Code) (captured : Option TableRef) (caller : TableRef) (s : Store) :
    ∃ table : Table, table.bindings = [] ∧
      Exec.calleeScope unit captured caller s = s.newTable table := by
  unfold Exec.calleeScope
  split <;> exact ⟨_, rfl, rfl⟩

/-- How a function is entered. -/
structure FreshCall (code : CodeRef) (args : List Value) (receiver : Option Value) (k e : Context)
    (s t : Store) : Prop where
  code : e.code = code
  start : e.pc = 0
  high : e.base ≤ e.stack.size
  debugger : e.debugger = k.debugger
  strictness : e.strictness = k.strictness
  codes : t.codes = s.codes
  this : ∀ v, receiver = some v → e.scope.getLocal? t Exec.receiverName = some v
  awaits : ∀ names : List String, Exec.argumentsName ∉ names →
    (receiver.isSome = true → Exec.receiverName ∉ names) → t.Awaits e.scope args names

/-- The table of a function that is called holds the arguments, and binds no names but theirs and that
of the receiver. -/
theorem callFunction_fresh {code : CodeRef} {captured : Option TableRef} {args : List Value}
    {receiver : Option Value} {multi : Bool} {k e : Context} {w w' : World}
    (called : Exec.callFunction code captured args receiver multi k w s = (((.ok (), e), w'), t)) :
    w' = w ∧ FreshCall code args receiver k e s t := by
  let a : ArrayObject := { items := args.toArray }
  let s₁ := (s.newArray a).2
  obtain ⟨table, empty, new⟩ := calleeScope_new (s₁.code code) captured k.scope s₁
  let r : TableRef := ⟨s₁.tables.size⟩
  let s₂ : Store := (s₁.newTable table).2
  let s₃ := r.setAlways Exec.argumentsName (.array ⟨s.arrays.size⟩) s₂
  have unbound (name : String) : (s₂.table r).binding? name = none := by
    have added : s₂.table r = table := by simp [s₂, r, Store.newTable, Store.table]
    rw [added, Table.binding?, empty]
    rfl
  have there : r.index < s₂.tables.size := by simp [s₂, r, Store.newTable]
  have first : s₂.Rebinds s₃ r _ _ := setAlways_rebinds there (unbound _)
  have made : ((StoreM.array .interface args.toArray : StoreM Value) : Exec Value) k w s =
      (((.ok (.array ⟨s.arrays.size⟩), k), w), s₁) := rfl
  rw [Exec.callFunction, Exec.bind_of_ok made] at called
  dsimp only at called
  rw [new] at called
  cases called
  have has : s₁.Has (.array ⟨s.arrays.size⟩) := by simp [s₁, Store.newArray, Store.Has]
  have items : s₁.array ⟨s.arrays.size⟩ = a := s.array_newArray a
  have held : r.getLocal? s₃ Exec.argumentsName = some (.array ⟨s.arrays.size⟩) := by
    rw [TableRef.getLocal?, first.bound]
    rfl
  have there' : r.index < s₃.tables.size := first.size.symm ▸ there
  have fresh {name : String} (apart : name ≠ Exec.argumentsName) :
      (s₃.table r).binding? name = none := (first.others (.inr apart)).trans (unbound name)
  refine ⟨rfl, rfl, rfl, by simp [Context.base], rfl, rfl, ?_, ?_, fun names apart unshared => ?_⟩
  · cases receiver <;> rfl
  · rintro v rfl
    have second : s₃.Rebinds (r.setAlways Exec.receiverName v s₃) r _ _ :=
      setAlways_rebinds there' (fresh (by decide))
    have held' : r.getLocal? (r.setAlways Exec.receiverName v s₃) Exec.receiverName = some v := by
      rw [TableRef.getLocal?, second.bound]
      rfl
    exact held'
  have others : ∀ name ∈ names, name ≠ Exec.argumentsName := by
    rintro _ mem rfl
    exact apart mem
  cases receiver with
  | none => exact ⟨there', ⟨_, held, has, items⟩, fun name mem _ => fresh (others name mem)⟩
  | some v =>
    have second : s₃.Rebinds (r.setAlways Exec.receiverName v s₃) r _ _ :=
      setAlways_rebinds there' (fresh (by decide))
    have held' : r.getLocal? (r.setAlways Exec.receiverName v s₃) Exec.argumentsName =
        some (.array ⟨s.arrays.size⟩) := by
      rw [TableRef.getLocal?, second.others (.inr (by decide))]
      exact held
    refine ⟨second.size.symm ▸ there', ⟨_, held', has, items⟩, fun name mem _ => ?_⟩
    have apart : name ≠ Exec.receiverName := by
      rintro rfl
      exact unshared rfl mem
    exact (second.others (.inr apart)).trans (fresh (others name mem))

/-! ## Numbers of arguments -/

/-- A number of arguments that a function takes. -/
def Declaration.Accepts (d : Declaration) (count : Nat) : Prop :=
  d.minArgs ≤ count ∧ ∀ most ∈ d.maxArgs?, count ≤ most

section

variable {c : Context} {w : World} {args : List Value} {names : List String}

theorem argumentCount_ok (awaits : s.Awaits c.scope args names) :
    Exec.argumentCount c w s = (((.ok args.length, c), w), s) := by
  obtain ⟨a, bound, -, items⟩ := awaits.arguments
  refine (Exec.bind_of_ok (a := c.scope) rfl).trans ?_
  change (((Except.ok (((c.scope.getLocal? s Exec.argumentsName).bind (·.length? s)).getD 0), _), _), _) = _
  rw [bound]
  simp [Value.length?, items]

/-- The check of the number of arguments passes just if the function takes so many. -/
theorem checkArity_accepts {d : Declaration} (awaits : s.Awaits c.scope args names)
    (short : d.parameters.length < countLimit) :
    (d.Accepts args.length ∧ Exec.checkArguments d.checkArity.operand c w s = (((.ok (), c), w), s)) ∨
    (¬d.Accepts args.length ∧ Exec.checkArguments d.checkArity.operand c w s =
      (((.error (.about .argumentCount d.name), c), w), s)) := by
  have count : (do pure ((← Exec.argumentCount : Nat) : Int) : Exec Int) c w s =
      (((.ok (args.length : Int), c), w), s) := Exec.bind_of_ok (argumentCount_ok awaits)
  let most : Int64 := if d.variadic then -1 else Int64.ofNat d.parameters.length
  let refused : Bool := (args.length : Int) < (Int64.ofNat d.minArgs).toInt ||
    (0 ≤ most.toInt && most.toInt < args.length)
  have checks : Exec.checkArguments d.checkArity.operand c w s =
      (if refused then throw (.about .argumentCount d.name) else pure () : Exec Unit) c w s :=
    Exec.bind_of_ok count
  have least : (Int64.ofNat d.minArgs).toInt = d.minArgs := toInt_ofNat <| by
    unfold Declaration.minArgs
    split <;> omega
  have accepts : refused = false ↔ d.Accepts args.length := by
    have unlimited : (-1 : Int64).toInt = -1 := rfl
    cases isVariadic : d.variadic <;>
      simp [refused, most, least, Declaration.Accepts, Declaration.maxArgs?, isVariadic, unlimited,
        toInt_ofNat short]
  rw [checks, ← accepts]
  cases refused <;> simp <;> rfl

/-- A line is noted. -/
theorem lineCode_steps {code : Code} {pc line last : Nat} (stack : Array Value) (off : c.debugger = {})
    (here : s.code c.code = code) (placed : Placed code pc (lineCode line last)) :
    ∃ n l, Steps n ⟨c.at pc stack, w, s⟩
      ⟨({ c with line := l } : Context).at (pc + (lineCode line last).length) stack, w, s⟩ := by
  by_cases isNew : 0 < line ∧ line ≠ last
  · rw [lineCode, if_pos isNew] at placed ⊢
    have noted := Exec.atLine_ok (c := c.at (pc + 1) stack) (.int (Int64.ofNat line)) off w s
    have found : (s.code (c.at pc stack).code).instructions[pc]? = _ := here ▸ placed.head
    exact ⟨1, _, .one (Exec.step_ok found (by simp) noted)⟩
  · rw [lineCode, if_neg isNew]
    exact ⟨0, c.line, .refl⟩

end

/-! ## The prologue -/

namespace Declaration

variable (d : Declaration)

/-- Every parameter that has a name is bound. -/
def Receives (strict : Bool) (level : Strictness) (args : List Value) (r : TableRef) (s s' : Store) : Prop :=
  ∀ (i : Nat) (p : Parameter), d.parameters[i]? = some p → p.name ≠ "_" →
    p.Receives strict level (d.variadic && i + 1 == d.parameters.length) args i r s s'

/-- One of the parameters does not take what it is offered. -/
def Refuses (strict : Bool) (level : Strictness) (args : List Value) (s : Store) (f : Fault) : Prop :=
  ∃ (i : Nat) (p : Parameter), d.parameters[i]? = some p ∧
    p.Refuses strict level (d.variadic && i + 1 == d.parameters.length) args i s f

/-- A call in which neither the machine's own names nor `len` are taken for something else. -/
structure Regular (args : List Value) (receiver : Option Value) (r : TableRef) (s : Store) : Prop where
  few : args.length < countLimit
  short : d.parameters.length < countLimit
  proper : ∀ v ∈ args, v.Proper
  arguments : Exec.argumentsName ∉ d.parameters.map Parameter.name
  receiver : receiver.isSome = true → Exec.receiverName ∉ d.parameters.map Parameter.name
  len : d.variadic = true →
    r.get? s "len" false = some (.native (.root .len)) ∧ "len" ∉ d.parameters.map Parameter.name

variable {d}

theorem Accepts.enough {count : Nat} (h : d.Accepts count) :
    d.parameters.length ≤ count + d.variadic.toNat := by
  have least := h.1
  unfold minArgs at least
  split at least
  · rename_i isVariadic
    rw [isVariadic, Bool.toNat_true]
    omega
  · omega

/-- A call fails for the number of its arguments just if the function does not take so many. Else
every parameter is bound, unless one does not take what it is offered. -/
theorem prologue_runs {code : Code} {strict : Bool} {line last : Nat} {bound : Option CompileM.Receiver}
    (placed : Placed code 0 (d.prologue strict line last bound))
    (distinct : ((d.parameters.map Parameter.name).filter (· ≠ "_")).Nodup) {ref : CodeRef}
    {args : List Value} {receiver : Option Value} {k e : Context} {w : World}
    (call : FreshCall ref args receiver k e s t) (here : s.code ref = code) (off : k.debugger = {})
    (regular : d.Regular args receiver e.scope t) :
    (¬d.Accepts args.length ∧
      ∃ n left, Fails n ⟨e, w, t⟩ (.about .argumentCount d.name) ⟨left, w, t⟩) ∨
    (d.Accepts args.length ∧
      ((∃ n l u, Steps n ⟨e, w, t⟩
          ⟨({ e with line := l } : Context).at (d.prologue strict line last none).length e.stack, w, u⟩ ∧
        t.Adds u e.scope (d.parameters.map Parameter.name) ∧
        d.Receives strict k.strictness args e.scope t u) ∨
      ∃ n f left, Fails n ⟨e, w, t⟩ f left ∧ d.Refuses strict k.strictness args t f)) := by
  have awaits := call.awaits _ regular.arguments regular.receiver
  have inside : t.code e.code = code := by
    rw [← here, Store.code, Store.code, call.codes, call.code]
  obtain ⟨n, l, notes⟩ := lineCode_steps (w := w) e.stack (call.debugger.trans off) inside
    placed.left.left.left
  have start : e.at 0 e.stack = e := by
    rw [← call.start]
    rfl
  rw [start] at notes
  let c : Context := { e with line := l }
  let pc := 0 + (lineCode line last).length
  have check := placed.left.left.right
  have found : (t.code c.code).instructions[pc]? = some d.checkArity := inside ▸ check.head
  rcases checkArity_accepts (c := c.at (pc + 1) e.stack) (w := w) (d := d) awaits regular.short with
    ⟨accepts, passes⟩ | ⟨refused, fails⟩
  · have passed : Snapshot.Goes ⟨c.at pc e.stack, w, t⟩ ⟨c.at (pc + 1) e.stack, w, t⟩ :=
      Exec.step_ok found (by simp [checkArity]) passes
    have enough : 0 + d.parameters.length ≤ args.length + d.variadic.toNat := by
      have := accepts.enough
      omega
    have parameters : Placed code (pc + 1) (parametersCode strict d.variadic 0 d.parameters) := by
      have there := placed.left.right
      rwa [List.length_append, List.length_singleton, ← Nat.add_assoc] at there
    rcases parameters_bind (c := c) (w := w) regular.few regular.proper call.high inside parameters awaits
        distinct regular.arguments enough regular.len with
      ⟨n', u, binds, adds, received⟩ | ⟨n', f, left, fails, i, p, at_, refuses⟩
    · have length : (d.prologue strict line last none).length =
          pc + 1 + (parametersCode strict d.variadic 0 d.parameters).length := by
        simp only [prologue, receiverCode, List.append_nil, List.length_append, List.length_singleton, pc]
        omega
      rw [length]
      refine .inr ⟨accepts, .inl ⟨_, l, u, notes.trans ((Steps.one passed).trans binds), adds, ?_⟩⟩
      intro i p at_ named
      have bound := received i p at_ named
      rw [Nat.zero_add] at bound
      exact call.strictness ▸ bound
    · rw [Nat.zero_add] at refuses
      exact .inr ⟨accepts, .inr ⟨_, f, left, .trans notes (.trans (.one passed) fails), i, p, at_,
        call.strictness ▸ refuses⟩⟩
  · have failed : Fails 0 ⟨c.at pc e.stack, w, t⟩ (.about .argumentCount d.name) ⟨c.at (pc + 1) e.stack, w, t⟩ :=
      ⟨_, .refl, Exec.step_error found (by simp [checkArity]) fails⟩
    exact .inl ⟨refused, _, _, .trans notes failed⟩

/-- The calls of a function go by its declaration. A call fails for the number of its arguments just if
the function does not take so many; else every parameter is bound, unless one does not take what it is
offered. -/
def Governs (d : Declaration) (strict : Bool) (function : Code) : Prop :=
  ∀ (ref : CodeRef) (captured : Option TableRef) (args : List Value)
    (receiver : Option Value) (multi : Bool) (k : Context) (w : World) (s : Store),
    s.code ref = function → k.debugger = {} →
      ∃ e t, Exec.callFunction ref captured args receiver multi k w s = (((.ok (), e), w), t) ∧
        (d.Regular args receiver e.scope t →
          (¬d.Accepts args.length →
            ∃ n left, Fails n ⟨e, w, t⟩ (.about .argumentCount d.name) ⟨left, w, t⟩) ∧
          (d.Accepts args.length →
            (∃ n pc line u, Steps n ⟨e, w, t⟩ ⟨{ e with pc := pc, line := line }, w, u⟩ ∧
              d.Receives strict k.strictness args e.scope t u) ∨
            ∃ n f left, Fails n ⟨e, w, t⟩ f left ∧ f.kind ≠ .argumentCount ∧
              d.Refuses strict k.strictness args t f))

theorem Refuses.noCount {strict : Bool} {level : Strictness} {args : List Value} {f : Fault}
    (h : d.Refuses strict level args s f) (proper : ∀ v ∈ args, v.Proper) :
    f.kind ≠ .argumentCount := by
  obtain ⟨i, p, -, refuses⟩ := h
  have conversion := refuses.conversion proper
  unfold Fault.IsConversion at conversion
  intro isCount
  rw [isCount] at conversion
  simp at conversion

/-- A function that starts with its prologue is called as its declaration says. -/
theorem Enters.governs {strict : Bool} {function : Code} (h : d.Enters strict function) :
    d.Governs strict function := by
  obtain ⟨line, last, bound, -, placed, distinct⟩ := h
  intro ref captured args receiver multi k w s here off
  obtain ⟨e, t, called⟩ : ∃ e t, Exec.callFunction ref captured args receiver multi k w s =
      (((.ok (), e), w), t) := ⟨_, _, rfl⟩
  refine ⟨e, t, called, fun regular => ?_⟩
  obtain ⟨-, fresh⟩ := callFunction_fresh called
  have parameters : ((d.parameters.map Parameter.name).filter (· ≠ "_")).Nodup := by
    rw [List.filter_append] at distinct
    exact (List.nodup_append.1 distinct).1
  rcases prologue_runs (w := w) placed parameters fresh here off regular with
    ⟨refused, fails⟩ | ⟨accepts, ⟨n, l, u, binds, -, received⟩ | ⟨n, f, left, fails, refuses⟩⟩
  · exact ⟨fun _ => fails, fun accepts => absurd accepts refused⟩
  · exact ⟨fun refused => absurd accepts refused, fun _ => .inl ⟨n, _, l, u, binds, received⟩⟩
  · exact ⟨fun refused => absurd accepts refused,
      fun _ => .inr ⟨n, f, left, fails, refuses.noCount regular.proper, refuses⟩⟩

end Declaration

/-- A function is called as its declaration says at the level that it was made at. -/
theorem Code.MadeUnder.governs {function : Code} {level : Strictness} {d : Declaration}
    (made : function.MadeUnder level) (declared : function.declaration = some d) :
    d.Governs (level == .strict) function := by
  obtain ⟨imports, depth, name, receiver, b, b', r, run, found, rfl⟩ := made
  have steady := CompileM.rulesTo_steady (CompileM.packageTo_makes imports) depth
  obtain ⟨d', same, enters⟩ := CompileM.functionBody_enters steady run found
  obtain rfl : d' = d := Option.some.inj (same.symm.trans declared)
  exact enters.governs

/-! ## Calls in a source -/

/-- Arguments reach parameters. The arguments of a call are compiled one after the other and counted;
where the last one is spread, its array is taken apart right before the call, which does what the call
does that is given the items in its place. The calls of a function that comes of a source go by its
declaration and by the strictness that it was compiled under. -/
theorem Compiler.Unfailed.arguments_reach_parameters {c c' : Compiler} {code unit function : Code}
    {source : String} {r : CodeRef} {d : Declaration} (h : c.Unfailed)
    (compiled : CompileM.compile source c = (.ok code, c') ∨
      CompileM.compileExpression source c = (.ok code, c'))
    (part : Code.Part c'.codes code unit) (pushes : unit.Pushes r)
    (found : c'.codes[r.index]? = some function) (declared : function.declaration = some d)
    (lexical : d.scope = .lexical) :
    (∀ (rules : Nested) (flags : CallFlags) (b b' : Compiler),
      (do
        let (count, spread) ← CompileM.arguments rules
        CompileM.emitCall count { flags with spread := spread }) b = (.ok (), b') →
      b.cursor.isNext "(" = true ∧ ∃ count c, CompileM.Arguments rules b.inParentheses count c ∧
        let spread := c.cursor.isNext "..."
        (spread = true → 0 < count) ∧ b'.draft.code.instructions =
          (c.draft.code.instructions ++ if spread then #[(⟨.flatten, .none⟩ : Instruction)] else #[]).push
            ⟨.call, callOperand count { flags with spread := spread }.toInt⟩) ∧
    (∀ (k : Context) (w : World) (s : Store) (pc : Nat) (stack : Array Value) (args : List Value)
      (a : ArrayRef) (flags : CallFlags), k.base ≤ stack.size → args.length + 1 < countLimit →
      args.length + (s.array a).items.size < countLimit →
      (do
        Exec.flatten
        Exec.call (callOperand (args.length + 1) { flags with spread := true }.toInt))
          (k.at pc ((stack ++ args.toArray).push (.array a))) w s =
        Exec.call (callOperand (args.length + (s.array a).items.size) { flags with spread := false }.toInt)
          (k.at pc (stack ++ args.toArray ++ (s.array a).items)) w s) ∧
    (∃ level, function.MadeUnder level) ∧
    (∀ level, function.MadeUnder level → d.Governs (level == .strict) function) := by
  refine ⟨fun rules flags b b' run => ?_, ?_, ?_, fun level made => ?_⟩
  · obtain ⟨opens, ⟨count, spread⟩, c, ⟨before, given, ellipsis, some, emitted⟩, called⟩ :=
      CompileM.call_passes run
    dsimp only at ellipsis
    subst ellipsis
    refine ⟨opens, count, before, given, some, ?_⟩
    rw [called, emitted]
  · exact fun k w s pc stack args a flags high short few =>
      Exec.call_spread high rfl args flags short few
  · obtain ⟨level, made, -⟩ := h.prepared compiled part pushes found d declared lexical
    exact ⟨level, made⟩
  · exact made.governs declared

/-- A function whose last parameter takes all arguments that are left. -/
def restSource : String := "func f(n int, rest ...int) \x7b print n \x7d"

/-- What the function declares. -/
def restDeclaration : Declaration :=
  { name := "f", parameters := [⟨"n", .plain .int⟩, ⟨"rest", .plain .int⟩], variadic := true }

/-- A new machine that has the units of the source. -/
def restStore : Store :=
  { (Machine.new {}).store with codes := (CompileM.compile restSource (.new "main" {})).2.codes }

/-- A call of the function from the root. -/
def restCaller : Context := .new restStore .relaxed ⟨0⟩ (Machine.new {}).root

/-- The arguments of the call. -/
def restArguments : List Value := [.int 1, .int 2, .int 3]

set_option maxRecDepth 20000 in
/-- In the scope of the call, the name still stands for the function that measures. -/
theorem rest_sees : (fun r => match r.1.1.2.scope.get? r.2 "len" false with
    | some (.native (.root .len)) => true
    | _ => false) (Exec.callFunction ⟨0⟩ none restArguments none false restCaller {} restStore) =
      true := by decide +kernel

set_option maxRecDepth 20000 in
/-- The function can be called with three arguments, and `len` is what it is in a new machine. -/
theorem rest_governed : ∃ (code function : Code) (c' : Compiler) (d : Declaration) (e : Context) (t : Store),
    CompileM.compile restSource (.new "main" {}) = (.ok code, c') ∧ function.declaration = some d ∧
      (∃ level, function.MadeUnder level ∧ d.Governs (level == .strict) function) ∧
      restStore.code ⟨0⟩ = function ∧
      Exec.callFunction ⟨0⟩ none restArguments none false restCaller {} restStore = (((.ok (), e), {}), t) ∧
      d.Regular restArguments none e.scope t ∧ d.Accepts restArguments.length := by
  have sees := rest_sees
  obtain ⟨e, t, called⟩ : ∃ e t, Exec.callFunction ⟨0⟩ none restArguments none false restCaller {} restStore =
      (((.ok (), e), {}), t) := ⟨_, _, rfl⟩
  obtain ⟨code, c', run, pushes, declarations⟩ := CompileM.exists_compiled restSource (.new "main" {})
    (fun code c' => code.Pushes ⟨0⟩ ∧ c'.codes.map (·.declaration) = #[some restDeclaration])
    (by decide +kernel)
  have codes : restStore.codes = c'.codes := congrArg (·.2.codes) run
  have declared : (c'.codes[0]?).map (·.declaration) = some (some restDeclaration) := by
    rw [← Array.getElem?_map, declarations]
    rfl
  obtain ⟨function, found, declaration⟩ := Option.map_eq_some_iff.1 declared
  have reached := Compiler.Unfailed.arguments_reach_parameters (.new "main" {}) (.inl run) .whole
    pushes found declaration rfl
  obtain ⟨-, -, ⟨level, made⟩, governs⟩ := reached
  refine ⟨code, function, c', restDeclaration, e, t, run, declaration, ⟨level, made, governs level made⟩,
    ?_, called, ?_, ?_⟩
  · simp [Store.code, codes, found]
  · rw [called] at sees
    dsimp only at sees
    split at sees
    · exact ⟨by decide, by decide, by simp [restArguments, Value.Proper, Value.isMarker], by decide,
        by rintro ⟨⟩, fun _ => ⟨‹_›, by decide⟩⟩
    · cases sees
  · exact ⟨by decide, by rintro _ ⟨⟩⟩

/-- A program that does without conversions, and a function that asks for one. -/
def dynamicSource : String := "@type dynamic\nfunc f(n int) \x7b print typeof(n) \x7d\nf(\"4\")\n"

/-- Under dynamic typing a parameter is bound to its argument as it is, also where the argument could be
converted to the declared type. -/
theorem dynamic_unconverted :
    (fun ended : Except Fault Unit × Machine => (ended.1.mapError (·.kind), ended.2.world.output))
      (CommandLine.runSource {} "test" dynamicSource none (Machine.new {})) = (.ok (), "string\n") ∧
    (CompileM.compile dynamicSource (.new "test" {})).2.codes.map
      (fun unit => unit.declaration.map (·.parameters)) = #[some [⟨"n", .plain .int⟩]] ∧
    (((Value.string "4").coerce (.plain .int) {}).1.map (·.typeName {})).toOption = some "int" := by
  decide +kernel

end StackScript
