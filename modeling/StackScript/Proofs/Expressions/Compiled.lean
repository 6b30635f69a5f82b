import StackScript.Proofs.Compiling.Sessions
import StackScript.Proofs.Expressions.Operands
import StackScript.Proofs.Expressions.Moving
import StackScript.Machine.Thread

/-!
# Compiled expressions

A source that is a writing of an expression is compiled to its code, and running that code comes to
the value of the expression, or fails as its evaluation does.

Main statement: `compileExpression_evaluates`.
-/
namespace StackScript

open CompileM

/-! ## Compiling -/

/-- Whether every array of a phrase has so few items that a number counts them. -/
def Phrase.Short : Phrase → Prop
  | .expr _ e => e.Short
  | .items es => Expr.ShortAll es

/-- Arrays have no more items than there are tokens. -/
theorem Written.short {q : Phrase} {ts : List Token} (h : Written q ts)
    (few : ts.length < countLimit) : q.Short := by
  induction h with
  | literal | name | none => trivial
  | array _ parts _ ih =>
    rw [List.length_append, List.length_cons] at few
    have := parts.items_length
    exact ⟨by omega, ih (by omega)⟩
  | parentheses _ _ _ ih =>
    rw [List.length_append, List.length_cons] at few
    exact ih (by omega)
  | unary _ _ _ ih =>
    rw [List.length_cons] at few
    exact ih (by omega)
  | binary _ _ _ _ _ ihLeft ihRight =>
    rw [List.length_append, List.length_cons] at few
    exact ⟨ihLeft (by omega), ihRight (by omega)⟩
  | choice _ _ _ _ _ _ ihCondition ihYes ihNo =>
    simp only [List.length_append, List.length_cons] at few
    exact ⟨ihCondition (by omega), ihYes (by omega), ihNo (by omega)⟩
  | tighter _ ih => exact ih few
  | last _ ih => exact ⟨ih few, trivial⟩
  | more _ _ _ _ ihFirst ihRest =>
    rw [List.length_append, List.length_cons] at few
    exact ⟨ihFirst (by omega), ihRest (by omega)⟩

/-- The instructions of a source that is an expression on a line. -/
def Expr.unit (spell : String → String) (line : Nat) (e : Expr) : List Instruction :=
  ⟨.atLine, .int (Int64.ofNat line)⟩ :: e.code spell 1

/-- At the end of its tokens nothing goes on with an expression. -/
theorem Compiler.Stops.of_atEnd {c : Compiler} {p : Precedence} (atEnd : c.cursor.atEnd = true)
    (last : c.cursor.last.tag = .endOfInput) : c.Stops p := by
  have none (text : String) : c.cursor.isNext text = false := by
    simp [Token.Cursor.isNext, Compiler.current_atEnd atEnd, Token.is, last]
  have alone : c.sameLine = false := by simp [Compiler.sameLine, atEnd]
  refine ⟨fun text _ => none text, fun brace => ?_, fun _ _ _ text _ => none text,
    fun _ _ => none _, fun same => ?_, fun _ text _ => none text⟩
  · rw [none] at brace
    cases brace
  · rw [alone] at same
    cases same

/-- A source that is a writing of an expression is compiled to the code of the expression. -/
theorem compileExpression_of {source : String} {tokens : List Token} {line : Nat} {e : Expr}
    (scanned : Token.scanAll source = .ok tokens) (lines : ∀ t ∈ tokens, t.line = line)
    (written : Written (.expr .choice e) tokens) (noType : ¬Token.OpensPointers tokens)
    (c : Compiler) :
    ∃ (code : Code) (c' : Compiler), compileExpression source c = (.ok code.close, c') ∧
      code.isSealed = false ∧ code.instructions = (e.unit c.spelling line).toArray := by
  obtain ⟨opened, hopened⟩ : ∃ c₁, c₁ = c.opened tokens source c.draft.lastLine := ⟨_, rfl⟩
  have ahead : opened.Ahead tokens := hopened ▸ c.opened_ahead tokens source
  have ready : opened.Ready := by
    subst hopened
    refine ⟨c.opened_unsealed _ source, c.opened_last _ source, ?_⟩
    simpa [Compiler.opened, Token.Cursor.ofTokens] using noType
  have here : opened.cursor.current.line = line := by
    obtain ⟨t, rest, rfl⟩ := List.exists_cons_of_ne_nil written.ne_nil
    rw [ahead.current]
    exact lines t (by simp)
  -- the rules are deep enough for all tokens
  let package := packageTo ((c.files.texts.length + 1) * pathLimit)
  let depth := 2 * (tokens.length + 2) + 1
  have opens := openSource_of (c := c) scanned
  have files : importDepth opened = (.ok ((c.files.texts.length + 1) * pathLimit), opened) := hopened ▸ rfl
  have rules := @openedRules_eq c tokens source c.draft.lastLine package
  rw [← hopened] at opens rules
  -- the expression is read to the end
  let noted : List Instruction := [⟨.atLine, .int (Int64.ofNat line)⟩]
  have reading : Reading package depth opened tokens := ⟨ready, ahead, by omega⟩
  have finished : (opened.emitted (0 + tokens.length) []).cursor.atEnd = true := by
    rw [hopened, Nat.zero_add]
    exact c.opened_atEnd tokens source []
  have parses : Parses .choice e tokens := written.parses
  have read := parses.behind (reading.start noted) (.of_atEnd finished ready.last)
  obtain ⟨last, hlast⟩ : ∃ c₂, c₂ = opened.emitted (0 + tokens.length) (e.unit c.spelling line) :=
    ⟨_, rfl⟩
  have done : opened.emitted (0 + tokens.length)
      (noted ++ e.code opened.spelling (opened.here + noted.length)) = last := by
    rw [hlast, hopened]
    rfl
  refine ⟨last.unit, { last with draft := { last.draft with code := { name := last.moduleName } } },
    (bind_of_ok opens).trans ?_, ?_, ?_⟩
  · refine (bind_of_ok files).trans ((bind_of_ok rules).trans ((bind_of_ok (get_eq _)).trans ?_))
    rw [here]
    refine (bind_of_ok (emit_of ready.unsealed .atLine _)).trans ?_
    refine (bind_of_ok read).trans ?_
    rw [done]
    have atEnd : atEnd last = (.ok true, last) := by
      rw [hlast]
      exact congrArg (fun b => (Except.ok b, _)) finished
    refine (bind_of_ok atEnd).trans ?_
    exact finish_eq last
  · rw [hlast]
    exact (ready.emitted _ _).unsealed
  · rw [hlast, hopened]
    simp [Compiler.unit, Compiler.emitted, Compiler.opened]

/-! ## Running -/

theorem Store.code_newCode (s : Store) (code : Code) : (s.newCode code).2.code (s.newCode code).1 = code := by
  simp [newCode, Store.code]

/-- A run in a context ends as a computation does: with its result on the stack, or with its fault. -/
def Context.RunsAs {α : Type} (c : Context) (w : World) (s : Store) (m : StoreM α)
    (rest : α → Array Value) : Prop :=
  match m s with
  | (.ok a, s') => ∃ final : Context, c.Ends w s (.ok ()) final w s' ∧ final.stack = rest a
  | (.error f, s') => ∃ final : Context,
    c.Ends w s (.error (f.locate final.moduleName final.line)) final w s'

/-- A unit of code that notes a line and computes something runs as the computation does. -/
theorem Movable.unit_runs {is : Nat → List Instruction} (movable : Movable is) {line : Nat} {code : Code}
    (unsealed : code.isSealed = false)
    (instructions : code.instructions = (⟨.atLine, .int (Int64.ofNat line)⟩ :: is 1).toArray)
    {α : Type} {m : StoreM α} {rest : α → Array Value}
    (within : StoreM.Within (fun s s' => s'.codes = s.codes) m) {level : Strictness} {table : TableRef}
    {w : World} {s : Store} {r : CodeRef} (placed : s.code r = code.close)
    (computes : ∀ c : Context, c.strictness = level → c.scope = table → c.base = 0 →
      Placed code.close 1 (is 1) → Computes c w code.close 1 (1 + (is 1).length) #[] m rest) :
    (Context.new s level r table).RunsAs w s m rest := by
  obtain ⟨move, kept, trims⟩ := Code.close_trims unsealed
  have whole : Placed code 0 (⟨.atLine, .int (Int64.ofNat line)⟩ :: is 1) := by
    have := Placed.whole code
    rwa [instructions, List.toList_toArray] at this
  have noted := trims.plain whole.head rfl trims.first
  have live := noted.here (by omega)
  have start : move 1 = 1 := by rw [trims.adjacent trims.first live, trims.start]
  have body := movable.placed_sealed trims whole.tail live
  have last := (movable.behind trims whole.tail live).2
  have size : code.size = 1 + (is 1).length := by simp [Code.size, instructions, Nat.add_comm]
  rw [start] at body last
  -- the line is noted, then the rest runs
  let c := Context.new s level r table
  let noted : Context := { c with line := Exec.countOf (.int (Int64.ofNat line)) 0 }
  have first : Steps 1 ⟨c, w, s⟩ ⟨noted.at 1 #[], w, s⟩ := by
    have found := trims.found trims.first whole.head
    rw [trims.start, ← placed] at found
    exact .one (Exec.step_ok found (by simp) (Exec.atLine_ok _ rfl w s))
  have computed := computes noted rfl rfl rfl body s placed
  have end' : code.close.instructions[1 + (is 1).length]? = none := by
    rw [Array.getElem?_eq_none_iff, ← last, ← size, trims.last]
    exact Nat.le_refl _
  have kept' := within s
  unfold Context.RunsAs
  rcases h : m s with ⟨r', s'⟩
  rw [h] at computed kept'
  obtain ⟨codes, noControl⟩ := kept'
  cases r' with
  | ok a =>
    obtain ⟨n, steps⟩ := computed
    have same : s'.code r = code.close := by
      rw [← placed, Store.code, Store.code, codes]
    refine ⟨_, (first.trans steps).ends ?_ rfl, rfl⟩
    change (s'.code r).instructions[1 + (is 1).length]? = none
    rw [same, end']
  | error f =>
    obtain ⟨n, pc, left, fails⟩ := computed
    exact ⟨{ noted.at pc left with state := .stopped },
      (Fails.trans first fails).ends (noControl f rfl) rfl⟩

/-- Running the sealed code of an expression comes to its value, or fails as its evaluation
does. -/
theorem Expr.unit_runs {e : Expr} {spell : String → String} {line : Nat} {code : Code}
    (short : e.Short) (unsealed : code.isSealed = false)
    (instructions : code.instructions = (e.unit spell line).toArray) (level : Strictness)
    (table : TableRef) (w : World) {s : Store} {r : CodeRef} (placed : s.code r = code.close) :
    match e.eval ⟨level, table, spell⟩ s with
    | (.ok v, s') => ∃ final : Context,
      (Context.new s level r table).Ends w s (.ok ()) final w s' ∧ final.stack = #[v]
    | (.error f, s') => ∃ final : Context,
      (Context.new s level r table).Ends w s (.error (f.locate final.moduleName final.line)) final w
        s' := by
  have runs : (Context.new s level r table).RunsAs w s (e.eval ⟨level, table, spell⟩) #[].push := by
    refine (e.movable spell).unit_runs unsealed instructions
      (e.eval_within Store.addsObjects_codes _) placed fun c strictness scope base body => ?_
    have computes := Expr.computes (c := c) (w := w) spell e 1 #[] short body (Nat.le_of_eq base)
    rwa [Context.setting, strictness, scope] at computes
  unfold Context.RunsAs at runs
  rcases h : e.eval ⟨level, table, spell⟩ s with ⟨result, s'⟩
  rw [h] at runs
  cases result with
  | ok v => exact runs
  | error f => exact runs

/-- A source that is a writing of an expression is compiled, whatever the compiler has read before.
Running the code with any table of names at any level of strictness comes to the value of the
expression, or fails as its evaluation does. -/
theorem compileExpression_evaluates {source : String} {tokens : List Token} {line : Nat} {e : Expr}
    (scanned : Token.scanAll source = .ok tokens) (lines : ∀ t ∈ tokens, t.line = line)
    (written : Written (.expr .choice e) tokens) (noType : ¬Token.OpensPointers tokens)
    (few : source.length < countLimit) (c : Compiler) :
    ∃ (code : Code) (c' : Compiler), compileExpression source c = (.ok code, c') ∧
      ∀ (level : Strictness) (table : TableRef) (w : World) (s₀ : Store),
        let (r, s) := s₀.newCode code
        match e.eval ⟨level, table, c.spelling⟩ s with
        | (.ok v, s') => ∃ final : Context,
          (Context.new s level r table).Ends w s (.ok ()) final w s' ∧ final.stack = #[v]
        | (.error f, s') => ∃ final : Context,
          (Context.new s level r table).Ends w s (.error (f.locate final.moduleName final.line))
            final w s' := by
  obtain ⟨code, c', compiled, unsealed, instructions⟩ :=
    compileExpression_of scanned lines written noType c
  refine ⟨code.close, c', compiled, fun level table w s₀ => ?_⟩
  have short := written.short (Nat.lt_of_le_of_lt (Token.scanAll_length scanned) few)
  exact Expr.unit_runs short unsealed instructions level table w (s₀.code_newCode code.close)

/-- A whole number as a literal. -/
def Literal.whole (spelling : String) (n : Int64)
    (reads : Decimal.readInt64 spelling = some n) : Literal :=
  ⟨.integer, spelling, .int n, by rw [Token.literal?, reads, Option.map_some]⟩

/-- The sum of one and the product of two and three. -/
def sevenTree : Expr :=
  .binary .add (.literal (.whole "1" 1 (by decide +kernel)))
    (.binary .multiply (.literal (.whole "2" 2 (by decide +kernel)))
      (.literal (.whole "3" 3 (by decide +kernel))))

/-- The tokens of the sum of one and the product of two and three. -/
def sevenTokens : List Token :=
  [⟨"1", .integer, 1, 1⟩, ⟨"+", .punctuation, 1, 3⟩, ⟨"2", .integer, 1, 5⟩,
    ⟨"*", .punctuation, 1, 7⟩, ⟨"3", .integer, 1, 9⟩]

theorem seven_evaluates : ∃ (code : Code) (c' : Compiler),
    compileExpression "1 + 2 * 3" (.new "eval" {}) = (.ok code, c') ∧
      ∃ final : Context, (Context.new (Store.newCode {} code).2 .strict ⟨0⟩ ⟨0⟩).Ends {}
        (Store.newCode {} code).2 (.ok ()) final {} (Store.newCode {} code).2 ∧
        final.stack = #[.int 7] := by
  have scanned : Token.scanAll "1 + 2 * 3" = .ok sevenTokens := by decide +kernel
  have lines : ∀ t ∈ sevenTokens, t.line = 1 := by decide
  have written : Written (.expr .choice sevenTree) sevenTokens :=
    sevenTree.written_of_words .choice sevenTokens lines rfl
  have noType : ¬Token.OpensPointers sevenTokens := by decide
  obtain ⟨code, c', compiled, runs⟩ := compileExpression_evaluates scanned lines written noType
    (by decide) (.new "eval" {})
  exact ⟨code, c', compiled, runs .strict ⟨0⟩ {} {}⟩

/-- An empty array times two. -/
def pointerTree : Expr :=
  .binary .multiply (.array []) (.literal (.whole "2" 2 (by decide +kernel)))

/-- The tokens of an empty array times two. -/
def pointerTokens : List Token :=
  [⟨"[", .punctuation, 1, 1⟩, ⟨"]", .punctuation, 1, 2⟩, ⟨"*", .punctuation, 1, 4⟩,
    ⟨"2", .integer, 1, 6⟩]

/-- Empty brackets with a `*` behind them start a type, though the tokens are the words of a
product. -/
theorem pointers_refused :
    Token.scanAll "[] * 2" = .ok pointerTokens ∧
    pointerTokens.map Token.word = pointerTree.words .choice ∧
    ((compileExpression "[] * 2" (.new "eval" {})).1.mapError (·.kind)).map Code.size =
      .error .invalidTypeSpec ∧
    ((pointerTree.eval ⟨.relaxed, ⟨0⟩, id⟩ {}).1.mapError (·.kind)).map Value.isTruthy =
      .error .invalidType := by
  exact ⟨by decide +kernel, rfl, by decide +kernel, rfl⟩

end StackScript
