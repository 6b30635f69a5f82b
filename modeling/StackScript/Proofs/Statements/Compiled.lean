import StackScript.Proofs.Expressions.Compiled
import StackScript.Proofs.Statements.Compiling
import StackScript.Proofs.Statements.Simulation

/-!
# Compiled statements

A source that spells statements is compiled to their code, and the runs of that code are those of the
interpreter: they end when it does, with the same output and the same names bound to the same values,
or with the same fault.

Main statement: `compile_executes`.
-/
namespace StackScript

open CompileM

/-! ## What is counted -/

/-- Nothing in a fragment is counted higher than there are tokens. -/
def Fragment.Short (depth : Nat) : Fragment → Prop
  | .block s | .chosen s | .statement s | .otherwise s | .sequence s => s.Short depth

theorem Perhaps.short {test : Option Expr} {ts : List Token} (h : Perhaps Expr.Laid test ts)
    (few : ts.length < countLimit) : ∀ e ∈ test, e.Short := by
  rintro e ⟨⟩
  exact Written.short (show Written _ ts from h) few

theorem Assignment.Laid.short {a : Assignment} {ts : List Token} (h : a.Laid ts)
    (few : ts.length < countLimit) : a.value.Short := by
  cases h with
  | intro name word line value =>
    simp only [List.length_cons] at few
    exact value.short (by omega)

theorem Perhaps.shortValue {a : Option Assignment} {ts : List Token} (h : Perhaps Assignment.Laid a ts)
    (few : ts.length < countLimit) : ∀ b ∈ a, b.value.Short := by
  rintro b ⟨⟩
  exact Assignment.Laid.short h few

/-- Scopes nest no deeper than there are tokens, and no line prints more values. -/
theorem Laid.short {q : Fragment} {ts : List Token} (h : Laid q ts) {depth : Nat}
    (few : depth + ts.length < countLimit) : q.Short depth := by
  induction h generalizing depth with
  | block opens inner closes ih =>
    simp only [List.length_append, List.length_cons] at few
    exact ⟨nofun, @ih (depth + 1) (by omega)⟩
  | @chosen t start test yes no ts te ty tn word opening tests body rest ihBody ihRest =>
    simp only [List.length_append, List.length_cons] at few
    have short : test.Short := Written.short tests (by omega)
    cases opening with
    | none => exact ⟨short, ihBody (by omega), ihRest (by omega)⟩
    | some start ends =>
      simp only [List.length_append, List.length_cons] at few
      refine ⟨?_, short, @ihBody (depth + 1) (by omega), @ihRest (depth + 1) (by omega)⟩
      rintro a ⟨⟩
      exact start.short (by omega)
  | missing => trivial
  | otherwise word inner ih | again word inner ih =>
    rw [List.length_cons] at few
    exact @ih depth (by omega)
  | assign h => exact h.short (by omega)
  | print word items some follows =>
    rw [List.length_cons] at few
    have counted := items.items_length
    exact ⟨by omega, items.short (by omega)⟩
  | inBlock h ih | choose h ih => exact ih few
  | @loop t start post test body ts tb word head inner ih =>
    simp only [List.length_append, List.length_cons] at few
    have inner' := @ih 0 (by omega)
    cases head with
    | condition tests => exact ⟨nofun, tests.short (by omega), nofun, inner'⟩
    | clauses starts one tests two posts =>
      simp only [List.length_append, List.length_cons] at few
      exact ⟨starts.shortValue (by omega), tests.short (by omega), posts.shortValue (by omega), inner'⟩
  | leave isBreak word => exact (by omega : depth < countLimit)
  | finish => trivial
  | semicolon word rest ih =>
    rw [List.length_cons] at few
    exact @ih depth (by omega)
  | next one ends others ihOne ihOthers =>
    simp only [List.length_append, List.length_cons] at few
    exact ⟨ihOne (by simp only [List.length_cons]; omega), ihOthers (by omega)⟩

/-! ## Where statements end -/

/-- A computation never ends at a `break` or `continue`. -/
def WorldM.Stays (m : WorldM Ending) : Prop := ∀ w s isBreak, (m w s).1.1 ≠ .ok (.leaves isBreak)

theorem WorldM.Stays.pure {e : Ending} (other : ∀ isBreak, e ≠ .leaves isBreak) :
    Stays (Pure.pure e) := by
  intro w s isBreak left
  exact other isBreak (Except.ok.inj left)

theorem WorldM.Stays.bind {α : Type} {m : WorldM α} {f : α → WorldM Ending} (h : ∀ a, Stays (f a)) :
    Stays (m >>= f) := by
  intro w s isBreak left
  rcases done : (m >>= f) w s with ⟨⟨x, w'⟩, s'⟩
  rw [done] at left
  cases left
  obtain ⟨a, w₁, s₁, -, ended⟩ := WorldM.bind_ok done
  exact h a w₁ s₁ isBreak (by rw [ended])

/-- No pass of a loop leaves the loop around it. -/
theorem passes_stays {pass : WorldM (Option Ending)}
    (h : ∀ w s isBreak, (pass w s).1.1 ≠ .ok (some (.leaves isBreak))) (bound : Nat) :
    WorldM.Stays (passes pass bound) := by
  induction bound with
  | zero => exact .pure nofun
  | succ bound ih =>
    intro w s isBreak left
    rcases done : passes pass (bound + 1) w s with ⟨⟨x, w'⟩, s'⟩
    rw [done] at left
    cases left
    obtain ⟨o, w₁, s₁, taken, ended⟩ := WorldM.bind_ok done
    cases o with
    | none => exact ih w₁ s₁ isBreak (congrArg (·.1.1) ended)
    | some e =>
      cases ended
      exact h w s isBreak (by rw [taken])

theorem onePass_stays (σ : Setting) (test : Option Expr) (post : Option Assignment)
    (body : WorldM Ending) (w : World) (s : Store) (isBreak : Bool) :
    (onePass σ test post body w s).1.1 ≠ .ok (some (.leaves isBreak)) := by
  intro left
  rcases done : onePass σ test post body w s with ⟨⟨x, w'⟩, s'⟩
  rw [done] at left
  cases left
  obtain ⟨holds, w₁, s₁, -, rest⟩ := WorldM.bind_ok done
  cases holds with
  | false => cases rest
  | true =>
    obtain ⟨e, w₂, s₂, -, after⟩ := WorldM.bind_ok rest
    cases e with
    | done =>
      obtain ⟨_, _, _, -, after⟩ := WorldM.bind_ok after
      cases after
    | unfinished => cases after
    | leaves other =>
      cases other with
      | true => cases after
      | false =>
        obtain ⟨_, _, _, -, after⟩ := WorldM.bind_ok after
        cases after

/-- Outside loops no statement ends at a `break` or `continue`. -/
theorem Stmt.exec_stays {spell : String → String} (s : Stmt) {names : List String}
    (proper : s.Proper spell names false) (σ : Setting) (bound : Nat) :
    WorldM.Stays (s.exec σ bound) := by
  induction s generalizing names σ with
  | nothing => exact .pure nofun
  | next line first rest ihFirst ihRest =>
    intro w s isBreak left
    rcases done : (next line first rest).exec σ bound w s with ⟨⟨x, w'⟩, s'⟩
    rw [done] at left
    cases left
    obtain ⟨e, w₁, s₁, one, rest⟩ := WorldM.bind_ok done
    cases e with
    | done => exact ihRest proper.2 σ w₁ s₁ isBreak (congrArg (·.1.1) rest)
    | unfinished => cases rest
    | leaves other => exact ihFirst proper.1 σ w s other (by rw [one])
  | assign a => exact .bind fun _ => .pure nofun
  | print es => exact .bind fun _ => .pure nofun
  | inScope start body ih => exact .bind fun table => .bind fun _ => ih proper.2 _
  | branch test yes no ihYes ihNo =>
    refine .bind fun holds => ?_
    cases holds with
    | true => exact ihYes proper.1 σ
    | false => exact ihNo proper.2 σ
  | cycle test post body ih => exact passes_stays (onePass_stays σ test post _) bound
  | leave isBreak => cases proper

/-! ## Running -/

/-- A run and the interpreter come to the same: both have ended well, or with one fault. -/
def Agrees (executed : (Except Fault Ending × World) × Store) (result : Except Fault Unit)
    (final : Context) (w : World) (s : Store) : Prop :=
  match executed with
  | ((.ok .done, w'), s') => result = .ok () ∧ w = w' ∧ s = s'
  | ((.error f, w'), s') => result = .error (f.locate final.moduleName final.line) ∧ w = w' ∧ s = s'
  | _ => False

/-- Running the sealed code of statements comes to what the interpreter does, when it is allowed enough
passes. -/
theorem Stmt.unit_runs {s : Stmt} {spell : String → String} {names : List String} {code : Code}
    (short : s.Short 0) (proper : s.Proper spell names false) (unsealed : code.isSealed = false)
    (instructions : code.instructions = (blanks (s.slots spell 0 0 0)).toArray) (level : Strictness)
    (table : TableRef) (w : World) {st : Store} {r : CodeRef} (placed : st.code r = code.close)
    (bound : Nat) :
    (∃ result final w' st', (Context.new st level r table).Ends w st result final w' st' ∧
      Agrees (s.exec ⟨level, table, spell⟩ bound w st) result final w' st') ∨
    ((s.exec ⟨level, table, spell⟩ bound w st).1.1 = .ok .unfinished ∧
      ∃ n b, bound ≤ n ∧ Steps n ⟨Context.new st level r table, w, st⟩ b) := by
  obtain ⟨move, kept, trims⟩ := Code.close_trims unsealed
  have whole : Placed code 0 (fill (fun _ => 0) (s.slots spell 0 0 0)) := by
    have := Placed.whole code
    rwa [instructions, List.toList_toArray] at this
  let c := Context.new st level r table
  have simulated : Simulated code code.close move kept c spell bound s :=
    s.executes trims (Nat.zero_le _) bound rfl
  have lasting : Lasting fun s => s.code r = code.close := by
    intro s s' extends' same
    rw [← same, Store.code, Store.code, extends'.codes]
  have runs := @simulated _ 0 0 0 (fun _ => 0) table table lasting (fun _ same => same) (fun _ _ => rfl)
    short whole trims.first (fun _ => Nat.zero_le _) 0 w st placed
  have kept' := s.exec_within ⟨level, table, spell⟩ bound w st
  have ends := s.exec_stays proper ⟨level, table, spell⟩ bound w st
  rw [trims.start] at runs
  have strictness : c.strictness = level := rfl
  rw [strictness] at runs
  rcases executed : s.exec ⟨level, table, spell⟩ bound w st with ⟨⟨x, w'⟩, st'⟩
  rw [executed] at runs kept' ends
  cases x with
  | error f =>
    obtain ⟨n, b, fails, free, -⟩ := runs
    exact .inl ⟨_, _, _, _, fails.ends (kept'.2 f rfl) free, rfl, rfl, rfl⟩
  | ok e =>
    obtain ⟨n, pc, r', line, arrives, steps⟩ := runs
    cases e with
    | done =>
      obtain ⟨rfl, -, rfl⟩ := arrives
      refine .inl ⟨_, _, _, _, steps.ends ?_ rfl, rfl, rfl, rfl⟩
      have size : code.size = 0 + (s.slots spell 0 0 0).length := by
        simp [Code.size, instructions, blanks]
      have same : st'.code r = code.close := lasting kept'.1 placed
      change (st'.code r).instructions[move (0 + (s.slots spell 0 0 0).length)]? = none
      rw [same, ← size, trims.last, Array.getElem?_eq_none_iff]
      exact Nat.le_refl _
    | leaves isBreak => exact absurd rfl (ends isBreak)
    | unfinished => exact .inr ⟨rfl, n, _, arrives, steps⟩

/-- A source that spells statements is compiled, whatever the compiler has read before. With enough
passes for each loop the interpreter comes to what every run of the code that ends comes to, and the
run ends when the interpreter does. -/
theorem compile_executes {source : String} {tokens : List Token} {s : Stmt}
    (scanned : Token.scanAll source = .ok tokens) (laid : Laid (.sequence s) tokens)
    (noType : ¬Token.OpensPointers tokens) (few : source.length < countLimit) {c : Compiler}
    {names : List String} (inside : c.Inside names false 0)
    (proper : s.Proper c.spelling names false) :
    ∃ (code : Code) (c' : Compiler), compile source c = (.ok code, c') ∧
      ∀ (level : Strictness) (table : TableRef) (w : World) (s₀ : Store),
        let (r, st) := s₀.newCode code
        let start := Context.new st level r table
        let executed (bound : Nat) := s.exec ⟨level, table, c.spelling⟩ bound w st
        (∀ result final w' st', start.Ends w st result final w' st' →
          ∃ enough, ∀ bound, enough ≤ bound → Agrees (executed bound) result final w' st') ∧
        ∀ bound, (executed bound).1.1 ≠ .ok .unfinished →
          ∃ result final w' st', start.Ends w st result final w' st' ∧
            Agrees (executed bound) result final w' st' := by
  obtain ⟨code, c', compiled, unsealed, instructions⟩ :=
    compile_of scanned laid noType inside proper
  refine ⟨code.close, c', compiled, fun level table w s₀ => ?_⟩
  have short : s.Short 0 :=
    laid.short (by
      have := Token.scanAll_length scanned
      omega)
  have runs := s.unit_runs short proper unsealed instructions level table w
    (s₀.code_newCode code.close)
  refine ⟨fun result final w' st' ends => ?_, fun bound finished => ?_⟩
  · obtain ⟨k, done⟩ := ends
    refine ⟨k, fun bound le => ?_⟩
    rcases runs bound with ⟨result', final', w'', st'', ends', agrees⟩ | ⟨-, n, b, le', steps⟩
    · obtain ⟨rfl, rfl, rfl, rfl⟩ := Context.Ends.unique ⟨k, done⟩ ends'
      exact agrees
    · -- so many steps that go on would not have ended
      have goesOn := steps.run 0
      have ended := done (n - k)
      rw [Nat.add_sub_cancel' (Nat.le_trans le le')] at ended
      cases goesOn.symm.trans ended
  · exact (runs bound).resolve_right fun unfinished => finished unfinished.1

theorem Compiler.new_inside (name : String) (settings : Settings) :
    (Compiler.new name settings).Inside [] false 0 :=
  ⟨rfl, ⟨[], [], rfl, nofun⟩, nofun⟩

theorem one_readable : Decimal.readInt64 "1" = some 1 := by decide +kernel

/-- The number one as a literal. -/
def oneTree : Expr := .literal (.whole "1" 1 one_readable)

/-- A loop that prints a number in its first pass and ends. -/
def onceProgram : Stmt :=
  .next 1 (.loop none none none (.block
    (.next 1 (.print [oneTree]) (.next 1 (.leave true) .nothing)))) .nothing

/-- The tokens of a loop that ends in its first pass. -/
def onceTokens : List Token :=
  [⟨"for", .reserved, 1, 1⟩, ⟨"\x7b", .punctuation, 1, 5⟩, ⟨"print", .reserved, 1, 7⟩,
    ⟨"1", .integer, 1, 13⟩, ⟨";", .punctuation, 1, 14⟩, ⟨"break", .reserved, 1, 16⟩,
    ⟨"\x7d", .punctuation, 1, 22⟩]

theorem once_laid : Laid (.sequence onceProgram) onceTokens := by
  have lines : ∀ t ∈ ([⟨"1", .integer, 1, 13⟩] : List Token), t.line = 1 := by decide
  have one : Written (.items [oneTree]) [⟨"1", .integer, 1, 13⟩] :=
    .last (oneTree.written_of_words .choice _ lines rfl)
  have print : Laid (.statement (.print [oneTree]))
      [⟨"print", .reserved, 1, 7⟩, ⟨"1", .integer, 1, 13⟩] := .print rfl one (by decide) (by decide)
  have leave : Laid (.statement (.leave true)) [⟨"break", .reserved, 1, 16⟩] := .leave true rfl
  have body : Laid (.block _)
      [⟨"\x7b", .punctuation, 1, 5⟩, ⟨"print", .reserved, 1, 7⟩, ⟨"1", .integer, 1, 13⟩,
        ⟨";", .punctuation, 1, 14⟩, ⟨"break", .reserved, 1, 16⟩, ⟨"\x7d", .punctuation, 1, 22⟩] :=
    .block rfl (.next print (.semicolon rfl) (.next leave .last .finish)) rfl
  have noTest : Perhaps Expr.Laid none [] := rfl
  have word : Token.word ⟨"for", .reserved, 1, 1⟩ = keyword "for" := rfl
  exact .next (.loop word (.condition noTest) body) .last .finish

theorem once_executes : ∃ (code : Code) (c' : Compiler),
    compile "for \x7b print 1; break \x7d" (.new "main" {}) = (.ok code, c') ∧
      ∃ final w' st', (Context.new (Store.newCode {} code).2 .strict ⟨0⟩ ⟨0⟩).Ends {}
        (Store.newCode {} code).2 (.ok ()) final w' st' ∧ w'.output = "1\n" := by
  have scanned : Token.scanAll "for \x7b print 1; break \x7d" = .ok onceTokens := by decide +kernel
  have noType : ¬Token.OpensPointers onceTokens := by decide
  have proper : onceProgram.Proper (Compiler.new "main" {}).spelling [] false :=
    ⟨⟨by rintro _ ⟨⟩, ⟨by rintro _ ⟨⟩, trivial, rfl, trivial⟩⟩, trivial⟩
  obtain ⟨code, c', compiled, runs⟩ := compile_executes scanned once_laid noType (by decide)
    (Compiler.new_inside "main" {}) proper
  obtain ⟨result, final, w', st', ends, agrees⟩ := (runs .strict ⟨0⟩ {} {}).2 1 (by rintro ⟨⟩)
  obtain ⟨rfl, rfl, -⟩ := agrees
  exact ⟨code, c', compiled, final, _, st', ends, rfl⟩

/-! ## A type where a product was meant -/

theorem two_readable : Decimal.readInt64 "2" = some 2 := by decide +kernel

/-- A number with the name of a type, and the product of an empty array and that number. -/
def productProgram : Stmt :=
  .next 1 (.assign ⟨true, "int", .literal (.whole "2" 2 two_readable)⟩)
    (.next 2 (.print [.binary .multiply (.array []) (.name "int")]) .nothing)

/-- The tokens of the two lines. -/
def productTokens : List Token :=
  [⟨"int", .identifier, 1, 1⟩, ⟨":=", .punctuation, 1, 5⟩, ⟨"2", .integer, 1, 8⟩,
    ⟨"print", .reserved, 2, 1⟩, ⟨"[", .punctuation, 2, 7⟩, ⟨"]", .punctuation, 2, 8⟩,
    ⟨"*", .punctuation, 2, 10⟩, ⟨"int", .identifier, 2, 12⟩]

theorem product_laid : Laid (.sequence productProgram) productTokens := by
  have two : Written (.expr .choice (.literal (.whole "2" 2 two_readable))) [⟨"2", .integer, 1, 8⟩] :=
    Expr.written_of_words _ .choice _ (show ∀ t : Token, t ∈ _ → t.line = 1 by decide) rfl
  have product : Written (.expr .choice (.binary .multiply (.array []) (.name "int")))
      [⟨"[", .punctuation, 2, 7⟩, ⟨"]", .punctuation, 2, 8⟩, ⟨"*", .punctuation, 2, 10⟩,
        ⟨"int", .identifier, 2, 12⟩] :=
    Expr.written_of_words _ .choice _ (show ∀ t : Token, t ∈ _ → t.line = 2 by decide) rfl
  have print : Laid (.statement (.print [.binary .multiply (.array []) (.name "int")]))
      [⟨"print", .reserved, 2, 1⟩, ⟨"[", .punctuation, 2, 7⟩, ⟨"]", .punctuation, 2, 8⟩,
        ⟨"*", .punctuation, 2, 10⟩, ⟨"int", .identifier, 2, 12⟩] :=
    .print rfl (.last product) (by decide) (by decide)
  have name : Token.tag ⟨"int", .identifier, 1, 1⟩ = .identifier := rfl
  have assign : Laid (.statement (.assign ⟨true, "int", .literal (.whole "2" 2 two_readable)⟩))
      [⟨"int", .identifier, 1, 1⟩, ⟨":=", .punctuation, 1, 5⟩, ⟨"2", .integer, 1, 8⟩] :=
    .assign (.intro name rfl rfl two)
  exact .next assign (.line (by decide) rfl) (.next print .last .finish)

/-- The code that the two lines are compiled to. -/
def productCode : Code :=
  { name := "main", isSealed := true, capacity := 8, instructions := #[
    ⟨.atLine, .int 1⟩, ⟨.push, .value (.int 2)⟩, ⟨.symbolCreate, .name "int"⟩, ⟨.store, .name "int"⟩,
    ⟨.atLine, .int 2⟩, ⟨.push, .value (.type (Ty.plain .int).pointer.array)⟩, ⟨.print, .int 1⟩,
    ⟨.newline, .none⟩] }

/-- The code with a table of names. -/
def productStore (bindings : List (String × Binding)) : Store :=
  { tables := #[{ name := "main", bindings }], codes := #[productCode] }

/-- A spot in the run of the code. -/
def productSpot (line pc : Nat) (stack : Array Value) (printed : String)
    (bindings : List (String × Binding)) : Snapshot :=
  ⟨{ moduleName := "main", code := ⟨0⟩, scope := ⟨0⟩, strictness := .relaxed, pc, stack, line },
    { output := printed }, productStore bindings⟩

theorem product_steps : Steps 8 (productSpot 0 0 #[] "" [])
    (productSpot 2 8 #[] "[]*int\n" [("int", { value := .int 2 })]) := by
  let declared : List (String × Binding) := [("int", { value := .nil, bound := false })]
  let stored : List (String × Binding) := [("int", { value := .int 2 })]
  let type : Value := .type (Ty.plain .int).pointer.array
  have line₁ : (productSpot 0 0 #[] "" []).Goes (productSpot 1 1 #[] "" []) := rfl
  have two : (productSpot 1 1 #[] "" []).Goes (productSpot 1 2 #[.int 2] "" []) := rfl
  have creates : (productSpot 1 2 #[.int 2] "" []).Goes (productSpot 1 3 #[.int 2] "" declared) := rfl
  have stores : (productSpot 1 3 #[.int 2] "" declared).Goes (productSpot 1 4 #[] "" stored) := rfl
  have line₂ : (productSpot 1 4 #[] "" stored).Goes (productSpot 2 5 #[] "" stored) := rfl
  have pushes : (productSpot 2 5 #[] "" stored).Goes (productSpot 2 6 #[type] "" stored) := rfl
  have prints : (productSpot 2 6 #[type] "" stored).Goes (productSpot 2 7 #[] "[]*int" stored) := rfl
  have ends : (productSpot 2 7 #[] "[]*int" stored).Goes (productSpot 2 8 #[] "[]*int\n" stored) := rfl
  exact .next line₁ (.next two (.next creates (.next stores (.next line₂ (.next pushes
    (.next prints (.next ends .refl)))))))

/-- Empty brackets with a `*` behind them start a type also in a program: it prints one where the
interpreter refuses a product. -/
theorem product_printed :
    Token.scanAll "int := 2\nprint [] * int\n" = .ok productTokens ∧
    Laid (.sequence productProgram) productTokens ∧ productProgram.Proper id [] false ∧
    (compile "int := 2\nprint [] * int\n" (.new "main" {})).1 = .ok productCode ∧
    (∃ final w st, (Context.new (productStore []) .relaxed ⟨0⟩ ⟨0⟩).Ends {} (productStore []) (.ok ())
      final w st ∧ w.output = "[]*int\n") ∧
    ∀ bound, (productProgram.exec ⟨.relaxed, ⟨0⟩, id⟩ bound {} (productStore [])).1.1.mapError (·.kind) =
      .error .invalidType := by
  refine ⟨by decide +kernel, product_laid, ⟨fun _ => ⟨by decide, by decide⟩, trivial, trivial⟩,
    compile_of_agrees (by decide +kernel), ?_, fun bound => rfl⟩
  exact ⟨_, _, _, product_steps.ends rfl rfl, rfl⟩

end StackScript
