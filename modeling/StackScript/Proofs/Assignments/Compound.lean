import StackScript.Proofs.Assignments.Reading
import StackScript.Proofs.Statements.Compiled
import StackScript.Proofs.Statements.Compiling

/-!
# Assignments that combine values

`+=` and its kin, and `++` and `--`, combine the old value of an element with another value. The
container and the index of the element are evaluated twice: once before the old value is read, and
again, after the other value was evaluated, before the new one is stored. Where both are read from
names and literals alone this comes to evaluating them once.

Main statements: `Compound.compile_combines` and `Compound.exec_once`.
-/
namespace StackScript

open CompileM

/-! ## Trees -/

/-- An assignment that combines the old value of an element with another value. -/
structure Compound where
  target : Element
  op : Operation
  value : Expr

namespace Compound

/-- The operators that values are combined with. -/
def operations : List Operation := [.add, .subtract, .multiply, .divide]

/-- Tokens that spell a combining assignment, the target and the operator on one line. -/
inductive Laid : Compound → List Token → Prop
  | combined {t mark : Token} {ts us : List Token} {d : Element} {o : Operation} {e : Expr}
      (place : d.Laid (t :: ts)) (combines : o ∈ operations)
      (word : mark.word = StackScript.mark (o.word ++ "="))
      (lines : ∀ u ∈ t :: ts ++ [mark], u.line = t.line) (value : Written (.expr .choice e) us) :
      Laid ⟨d, o, e⟩ (t :: ts ++ mark :: us)
  | counted {t mark : Token} {ts : List Token} {d : Element} (up : Bool) (place : d.Laid (t :: ts))
      (word : mark.word = StackScript.mark (if up then "++" else "--"))
      (lines : ∀ u ∈ t :: ts ++ [mark], u.line = t.line) :
      Laid ⟨d, if up then .add else .subtract, oneTree⟩ (t :: ts ++ [mark])

/-- The effect of a combining assignment: the element is looked up for its old value and again for
its new one. -/
def exec (σ : Setting) (a : Compound) : StoreM Unit := do
  let old ← a.target.load σ
  let other ← a.value.eval σ
  let new ← a.op.apply σ.level old other
  a.target.store σ new

/-- The effect of a combining assignment that looks the element up once. -/
def execOnce (σ : Setting) (a : Compound) : StoreM Unit := do
  let (container, key) ← a.target.parts σ
  let old ← onOperands Aggregate.item container key
  let other ← a.value.eval σ
  let new ← a.op.apply σ.level old other
  storePart container key new

/-! ## Code -/

variable (spell : String → String)

/-- The instructions of a combining assignment. -/
def code (start : Nat) (a : Compound) : List Instruction :=
  let old := a.target.loadCode spell start
  let operands := old ++ a.value.code spell (start + old.length)
  let new := operands ++ a.op.instructions
  new ++ a.target.storeCode spell (start + new.length)

theorem code_movable (a : Compound) : Movable fun start => a.code spell start :=
  (((a.target.loadCode_movable spell).append (a.value.movable spell)).append
    (.plain fun i mem => a.op.instructions_plain i mem)).append (a.target.storeCode_movable spell)

/-- Whether every array in an assignment has so few items that a number counts them. -/
def Short (a : Compound) : Prop := a.target.Short ∧ a.value.Short

variable {spell} {c : Context} {w : World} {unit : Code} {stack : Array Value} {start : Nat}

/-- The code of a combining assignment has its effect. -/
theorem code_computes {a : Compound} (placed : Placed unit start (a.code spell start))
    (short : a.Short) (high : c.base ≤ stack.size) :
    Computes c w unit start (start + (a.code spell start).length) stack
      (a.exec (c.setting spell)) fun _ => stack := by
  have old := Element.load_computes (c := c) (w := w) placed.left.left.left short.1 high
  have store := placed.right
  simp only [code, List.length_append, ← Nat.add_assoc] at store ⊢
  refine old.bind (fun s => ((a.target.load_sparing _).store s).codes) fun old => ?_
  have other := a.value.computes (c := c) (w := w) spell _ (stack.push old) short.2
    placed.left.left.right (by simp; omega)
  refine other.bind (a.value.eval_codes _) fun other => ?_
  have applied := placed.left.right
  simp only [List.length_append, ← Nat.add_assoc] at applied
  refine (a.op.instructions_compute (c := c) (w := w) applied high old other).bind
    (fun s => (a.op.apply_within Store.addsObjects_codes _ old other).store s) fun new => ?_
  exact Element.store_computes store short.1 high new

/-! ## Reading -/

variable {package : String → String → Option String → CompileM CodeRef} {depth n k : Nat}
variable {c : Compiler} {place : Element} {container index : Code} {ts us : List Token}

/-- What is combined is emitted between reading and storing the element. -/
theorem combine_of {op : Opcode} {a : Compound} {value : CompileM Unit}
    (kept : a.target.Kept c.spelling container index) (unsealed : c.draft.code.isSealed = false)
    (instructions : a.op.instructions = [⟨op, .none⟩])
    (reads : value (c.emitted n (a.target.loadCode c.spelling c.here)) =
      (.ok (), c.emitted k (a.target.loadCode c.spelling c.here ++
        a.value.code c.spelling (c.here + (a.target.loadCode c.spelling c.here).length)))) :
    combine [.element container index] value op (c.emitted n []) =
      (.ok (), c.emitted k (a.code c.spelling c.here)) := by
  have loads := emitLoad_of kept unsealed n []
  rw [List.nil_append, List.length_nil, Nat.add_zero] at loads
  refine (bind_of_ok loads).trans ((bind_of_ok reads).trans ?_)
  refine (bind_of_ok (emit_emitted unsealed k _ op .none)).trans ?_
  rw [emitStore_of kept unsealed, ← instructions]
  rfl

/-- The steps behind the targets of an assignment. -/
def behindTargets (rules : Nested) (targets : List Target) : CompileM Unit := do
  let op ← next
  let isMark := op.tag == .punctuation
  match op.spelling with
  | "+=" => combine targets rules.expression .add
  | "-=" => combine targets rules.expression .sub
  | "*=" => combine targets rules.expression .mul
  | "/=" => combine targets rules.expression .div
  | ":=" => assignValues rules targets true
  | "=" => assignValues rules targets false
  | word =>
    if isMark && word == "++" then combine targets (emitValue (.int 1)) .add
    else if isMark && word == "--" then combine targets (emitValue (.int 1)) .sub
    else
      back 1
      fail .invalidAssignment

variable {mark : Token}

/-- An operator that values are combined with is emitted between the values. -/
structure Combines (mark : Token) (o : Operation) (value : Nested → CompileM Unit) (op : Opcode) :
    Prop where
  instructions : o.instructions = [⟨op, .none⟩]
  steps {rules : Nested} {targets : List Target} {c : Compiler} {us : List Token} :
    c.Ahead (mark :: us) →
    behindTargets rules targets c = combine targets (value rules) op (c.emitted 1 [])

theorem Combines.of_operation {o : Operation} (combines : o ∈ operations)
    (word : mark.word = StackScript.mark (o.word ++ "=")) :
    ∃ op, Combines mark o Nested.expression op := by
  have spelling := (Prod.mk.inj word).2
  simp only [operations, List.mem_cons, List.not_mem_nil, or_false] at combines
  rcases combines with rfl | rfl | rfl | rfl <;>
  · refine ⟨_, rfl, fun ahead => (bind_of_ok (next_of ahead)).trans ?_⟩
    simp only [spelling]
    rfl

theorem Combines.of_count (up : Bool)
    (word : mark.word = StackScript.mark (if up then "++" else "--")) :
    ∃ op, Combines mark (if up then .add else .subtract) (fun _ => emitValue (.int 1)) op := by
  obtain ⟨tag, spelling⟩ := Prod.mk.inj word
  cases up <;>
  · refine ⟨_, rfl, fun ahead => (bind_of_ok (next_of ahead)).trans ?_⟩
    simp only [spelling, tag]
    rfl

/-- An assignment to one element that combines values is read as its code. -/
theorem simpleStatement_of {t : Token} {op : Opcode} {word : String} {a : Compound}
    {value : Nested → CompileM Unit} (reading : Reading package depth c (t :: ts ++ mark :: us))
    (laid : a.target.Laid (t :: ts)) (lines : ∀ u ∈ t :: ts ++ [mark], u.line = t.line)
    (is : mark.word = StackScript.mark word) (assigns : word ∈ assignmentOperators)
    (combines : Combines mark a.op value op)
    (reads : value (rulesTo package (depth + 1))
        (c.emitted ((t :: ts).length + 1) (a.target.loadCode c.spelling c.here)) =
      (.ok (), c.emitted k (a.target.loadCode c.spelling c.here ++
        a.value.code c.spelling (c.here + (a.target.loadCode c.spelling c.here).length)))) :
    simpleStatement (rulesTo package (depth + 1)) c =
      (.ok (), c.emitted k (a.code c.spelling c.here)) := by
  have known := classify_of reading.ahead
    (laid.passedOn fun u mem => lines u (List.mem_append_left _ mem)) (lines mark (by simp)) is assigns
  have ahead := (reading.right []).ahead
  have other (text : String) (no : text ∉ assignmentOperators) :
      (c.emitted (t :: ts).length []).cursor.isNext text = false := by
    rw [ahead.isNext]
    refine Token.is_other (Token.is_of_word is) ?_
    rintro rfl
    exact no assigns
  obtain ⟨container, index, read, kept⟩ := laid.target_of reading.left
    ⟨other "[" (by decide), other "." (by decide)⟩
  have targets := targetList_one read (other "," (by decide))
  refine (bind_of_ok known).trans ((bind_of_ok targets).trans ((combines.steps ahead).trans ?_))
  rw [Compiler.emitted_emitted]
  exact combine_of kept reading.ready.unsealed combines.instructions reads

/-- A combining assignment is read as its code. -/
theorem Laid.reads {a : Compound} (laid : a.Laid ts) (c : Compiler) :
    ReadsAll simpleStatement c.normalize ts fun start => a.code c.spelling start := by
  intro package depth c' reading normalize atEnd
  have spelling : c.spelling = c'.spelling := by
    funext name
    rw [Compiler.spelling, Compiler.spelling, normalize]
  rw [spelling]
  cases laid with
  | @combined t mark ts us d o e place combines word lines value =>
    have assigns : o.word ++ "=" ∈ assignmentOperators := by
      simp only [operations, List.mem_cons, List.not_mem_nil, or_false] at combines
      rcases combines with rfl | rfl | rfl | rfl <;> decide
    obtain ⟨op, combined⟩ := Combines.of_operation combines word
    refine simpleStatement_of reading place lines word assigns combined ?_
    have behind := (reading.right []).tail []
    rw [Compiler.emitted_emitted] at behind
    have length : (t :: ts ++ mark :: us).length = (t :: ts).length + 1 + us.length := by
      simp only [List.length_append, List.length_cons]
      omega
    rw [length] at atEnd ⊢
    have parses : Parses .choice e us := value.parses
    exact parses.behind (behind.emitting _) (.of_atEnd atEnd reading.ready.last)
  | @counted t mark ts d up place word lines =>
    obtain ⟨op, combined⟩ := Combines.of_count up word
    refine simpleStatement_of reading place lines word (by cases up <;> decide) combined ?_
    rw [List.length_append]
    exact emit_emitted reading.ready.unsealed _ _ .push (.value (.int 1))

/-- Arrays in an assignment have no more items than there are tokens. -/
theorem Laid.short {a : Compound} (laid : a.Laid ts) (few : ts.length < countLimit) : a.Short := by
  cases laid with
  | combined place combines word lines value =>
    simp only [List.length_append, List.length_cons] at few
    exact ⟨place.short (by simp only [List.length_cons]; omega), value.short (by omega)⟩
  | counted up place word lines =>
    simp only [List.length_append, List.length_cons] at few
    exact ⟨place.short (by simp only [List.length_cons]; omega), trivial⟩

/-! ## Effects -/

open StoreM (Sparing)

theorem exec_within (σ : Setting) (a : Compound) :
    StoreM.Within (fun s s' => s'.codes = s.codes) (a.exec σ) := by
  have spares : Sparing (a.exec σ) :=
    .bind (a.target.load_sparing σ) fun old => .bind (a.value.eval_sparing σ) fun other =>
      .bind (a.op.apply_within Store.spares_addsObjects σ.level old other) fun new =>
        a.target.store_sparing σ new
  exact spares.imp Store.Spares.codes

/-- An element that is read from names and literals alone is the same when it is looked up again. -/
theorem exec_once {a : Compound} (plain : a.target.Plain) (σ : Setting) :
    a.exec σ = a.execOnce σ := by
  have keeps (p : Value × Value) (s : Store) :
      ((do
        let old ← onOperands Aggregate.item p.1 p.2
        let other ← a.value.eval σ
        a.op.apply σ.level old other : StoreM Value) s).2.tables = s.tables := by
    have h := Store.addsObjects_tables
    refine (StoreM.Within.bind h ?_ fun old => .bind h (a.value.eval_within h σ) fun other =>
      a.op.apply_within h σ.level old other).store s
    exact onOperands_within h (Aggregate.item_within h) p.1 p.2
  have again := (Element.parts_ofTables plain σ).again keeps fun p new => storePart p.1 p.2 new
  simpa only [exec, execOnce, Element.load, Element.store, bind_assoc] using again

/-- A source that is a combining assignment is compiled, and its code has the effect of evaluating the
container and the index, reading the element, evaluating the other value, combining both, evaluating
the container and the index again and storing there; for a variable with an index that is a name or a
literal, or with a field, this is the effect of evaluating them once. -/
theorem compile_combines {source : String} {tokens : List Token} {a : Compound}
    (scanned : Token.scanAll source = .ok tokens) (laid : a.Laid tokens)
    (noType : ¬Token.OpensPointers tokens) (few : source.length < countLimit) (c : Compiler) :
    (∃ (code : Code) (c' : Compiler), compile source c = (.ok code, c') ∧
      ∀ (level : Strictness) (table : TableRef) (w : World) (s₀ : Store),
        let (r, s) := s₀.newCode code
        (Context.new s level r table).RunsAs w s (a.exec ⟨level, table, c.spelling⟩) fun _ => #[]) ∧
    (a.target.Plain → ∀ σ, a.exec σ = a.execOnce σ) := by
  refine ⟨?_, exec_once⟩
  have length := Token.scanAll_length scanned
  have short := laid.short (by omega)
  obtain ⟨t, ts, rfl, name⟩ : ∃ t ts, tokens = t :: ts ∧ t.tag = .identifier := by
    cases laid with
    | combined place | counted up place => cases place; exact ⟨_, _, rfl, ‹_›⟩
  refine compile_single scanned name noType (laid.reads c) (a.code_movable c.spelling)
    (fun σ => a.exec_within σ) fun c' w code base placed => ?_
  exact code_computes placed short (Nat.le_of_eq base)

/-- The tokens of an item that grows by one. -/
def growTokens : List Token :=
  [⟨"a", .identifier, 1, 1⟩, ⟨"[", .punctuation, 1, 2⟩, ⟨"i", .identifier, 1, 3⟩,
    ⟨"]", .punctuation, 1, 4⟩, ⟨"+=", .punctuation, 1, 6⟩, ⟨"1", .integer, 1, 9⟩]

/-- An item of a variable that grows by one. -/
def grow : Compound := ⟨⟨"a", [], .index (.name "i")⟩, .add, oneTree⟩

theorem grow_laid : grow.Laid growTokens := by
  have one : Written (.expr .choice oneTree) [⟨"1", .integer, 1, 9⟩] :=
    oneTree.written_of_words .choice _ (show ∀ t ∈ _, Token.line t = 1 by decide) rfl
  have i : Written (.expr .choice (.name "i")) [⟨"i", .identifier, 1, 3⟩] :=
    Expr.written_of_words _ .choice _ (show ∀ t ∈ _, Token.line t = 1 by decide) rfl
  have name : Token.tag ⟨"a", .identifier, 1, 1⟩ = .identifier := rfl
  have item : (⟨"a", [], .index (.name "i")⟩ : Element).Laid (growTokens.take 4) :=
    .intro name .none (.index rfl i rfl)
  exact .combined item (by decide) rfl (by decide) one

/-- A store with an array of one item and an index of it. -/
def growStore (item : Int64) : Store :=
  { tables := #[{ name := "main"
                  bindings := [("a", { value := .array ⟨0⟩ }), ("i", { value := .int 0 })] }]
    arrays := #[{ element := .interface, items := #[.int item] }] }

theorem grow_stored :
    (∀ σ, grow.exec σ = grow.execOnce σ) ∧
    ∃ (code : Code) (c' : Compiler), compile "a[i] += 1" (.new "main" {}) = (.ok code, c') ∧
      ∃ final, (Context.new ((growStore 10).newCode code).2 .strict ⟨0⟩ ⟨0⟩).Ends {}
        ((growStore 10).newCode code).2 (.ok ()) final {} ((growStore 11).newCode code).2 := by
  have scanned : Token.scanAll "a[i] += 1" = .ok growTokens := by decide +kernel
  have noType : ¬Token.OpensPointers growTokens := by decide
  obtain ⟨⟨code, c', compiled, runs⟩, once⟩ :=
    compile_combines scanned grow_laid noType (by decide) (.new "main" {})
  have run := runs .strict ⟨0⟩ {} (growStore 10)
  obtain ⟨final, ends, -⟩ : ∃ final : Context, _ ∧ final.stack = #[] := run
  exact ⟨once ⟨rfl, trivial⟩, code, c', compiled, final, ends⟩

end Compound

end StackScript
