import StackScript.Proofs.Compiling.Emission
import StackScript.Compiler.Program

/-!
# Sessions

A source is scanned and read by rules that nest as deep as it has tokens; what was emitted is
sealed. Sources are compiled one after the other by one compiler. A source finds what the sources
before it declared, whether these were compiled or not: of a compilation that fails, only the
source that it read and the code that it emitted are forgotten.

Main statements: `Token.scanAll_length` (there are no more tokens than characters),
`openSource_of`, `session_of_kept` (a session depends only on what the compiler keeps),
`session_forgets` (a failure that leaves nothing else behind is forgotten) and
`broken_declaration_stays` (one behind a declared name is not).
-/
namespace StackScript

/-! ## Scanning -/

theorem Token.scanFrom_length (position : Position) (text : List Char) :
    (scanFrom position text).tokens.length ≤ text.length := by
  induction position, text using scanFrom.induct with
  | case1 position text gap none =>
    rw [scanFrom, dif_pos none]
    exact Nat.zero_le _
  | case2 position text gap some rest f failed =>
    rw [scanFrom, dif_neg some]
    simp only [gap, rest] at failed
    simp only [failed, List.length_nil, Nat.zero_le]
  | case3 position text gap some start rest lexeme found taken ih =>
    have less := length_behind_lt some (Nat.le_max_right lexeme.length 1)
    rw [scanFrom, dif_neg some]
    simp only [gap, rest] at found
    simp only [found, List.length_cons]
    exact Nat.lt_of_le_of_lt ih less

theorem Token.scan_of_scanAll {source : String} {tokens : List Token}
    (h : scanAll source = .ok tokens) : tokens = (scan source).tokens := by
  unfold scanAll at h
  split at h
  · cases h
  · dsimp only at h
    split at h <;> cases h
    rfl

/-- There are no more tokens than characters. -/
theorem Token.scanAll_length {source : String} {tokens : List Token}
    (h : scanAll source = .ok tokens) : tokens.length ≤ source.length := by
  rw [scan_of_scanAll h, ← String.length_toList]
  exact scanFrom_length _ _

theorem Token.Position.le_advance (p : Position) (count : Nat) (text : List Char) :
    p.line ≤ (p.advance count text).line := by
  induction count generalizing p text with
  | zero => exact Nat.le_refl _
  | succ count ih =>
    cases text with
    | nil => exact Nat.le_refl _
    | cons c rest =>
      refine Nat.le_trans ?_ (ih (p.after c) rest)
      unfold after
      split
      · exact Nat.le_succ _
      · exact Nat.le_refl _

theorem Token.scanFrom_line (position : Position) (text : List Char) :
    ∀ t ∈ (scanFrom position text).tokens, position.line ≤ t.line := by
  induction position, text using scanFrom.induct with
  | case1 position text gap none =>
    rw [scanFrom, dif_pos none]
    exact nofun
  | case2 position text gap some rest f failed =>
    rw [scanFrom, dif_neg some]
    simp only [gap, rest] at failed
    simp only [failed]
    exact nofun
  | case3 position text gap some start rest lexeme found taken ih =>
    have here := position.le_advance gap text
    rw [scanFrom, dif_neg some]
    simp only [gap, rest] at found
    simp only [found, List.forall_mem_cons]
    refine ⟨here, fun t mem => Nat.le_trans here (Nat.le_trans ?_ (ih t mem))⟩
    exact start.le_advance taken rest

/-- Lines are counted from one. -/
theorem Token.scanAll_line {source : String} {tokens : List Token}
    (h : scanAll source = .ok tokens) : ∀ t ∈ tokens, 0 < t.line := by
  rw [scan_of_scanAll h]
  exact scanFrom_line {} source.toList

/-! ## Opening -/

namespace Compiler

/-- A compiler at the start of a source, which has noted a line. -/
def opened (c : Compiler) (tokens : List Token) (source : String) (line : Nat) : Compiler :=
  { c with
    cursor := Token.Cursor.ofTokens tokens source
    draft := { c.draft with code := { name := c.moduleName }, lastLine := line } }

variable (c : Compiler) (tokens : List Token) (source : String) {line : Nat}

theorem opened_ahead : (c.opened tokens source line).Ahead tokens := List.prefix_rfl

theorem opened_unsealed : (c.opened tokens source line).draft.code.isSealed = false := rfl

theorem opened_last : (c.opened tokens source line).cursor.last.tag = .endOfInput := rfl

/-- When all tokens of a source were read the cursor is at its end. -/
theorem opened_atEnd (is : List Instruction) :
    ((c.opened tokens source line).emitted tokens.length is).cursor.atEnd = true := by
  simp [opened, emitted, Token.Cursor.atEnd, Token.Cursor.ofTokens]

/-- The unit that was emitted, with its owner. -/
def unit (c : Compiler) : Code := { c.draft.code with package := c.package }

end Compiler

namespace CompileM

variable {c : Compiler} {tokens : List Token} {source : String} {line : Nat}

theorem openSource_of (scanned : Token.scanAll source = .ok tokens) :
    openSource source c = (.ok (), c.opened tokens source c.draft.lastLine) := by
  have cursor : Token.Cursor.ofSource source = .ok (.ofTokens tokens source) := by
    rw [Token.Cursor.ofSource, scanned]
    rfl
  refine (bind_of_ok (get_eq c)).trans ?_
  rw [cursor]
  rfl

/-- Statements start without a line. -/
theorem openStatements_of (scanned : Token.scanAll source = .ok tokens) :
    openStatements source c = (.ok (), c.opened tokens source 0) :=
  bind_of_ok (openSource_of scanned)

theorem openedRules_eq (package : String → String → Option String → CompileM CodeRef) :
    openedRules package (c.opened tokens source line) =
      (.ok (rulesTo package (2 * (tokens.length + 2) + 2)), c.opened tokens source line) := by
  have bound : turnBound (c.opened tokens source line) =
      (.ok (tokens.length + 2), c.opened tokens source line) := by
    have size : (c.opened tokens source line).cursor.tokens.size = tokens.length := by
      simp [Compiler.opened, Token.Cursor.ofTokens]
    rw [← size]
    rfl
  exact (bind_of_ok bound).trans rfl

theorem finish_eq (c : Compiler) :
    finish c = (.ok c.unit.close,
      { c with draft := { c.draft with code := { name := c.moduleName } } }) := rfl

end CompileM

/-! ## Computing what comes of a source

Units are compared by their instructions. Of the values in them only those are compared that a source
spells out. -/

/-- Whether two operands are the same, as far as they are numbers, addresses, names, texts, types or
markers. -/
def Operand.agrees : Operand → Operand → Bool
  | .none, .none => true
  | .int n, .int m => n == m
  | .address a, .address b => a == b
  | .name s, .name t => s == t
  | .value (.int n), .value (.int m) => n == m
  | .value (.string s), .value (.string t) => s == t
  | .value (.type t), .value (.type u) => t == u
  | .value (.marker m), .value (.marker k) => m == k
  | _, _ => false

/-- Whether two instructions are the same, as far as operands are compared. -/
def Instruction.agrees (i j : Instruction) : Bool := i.op == j.op && i.operand.agrees j.operand

/-- Whether two units without constants are the same, as far as operands are compared. -/
def Code.agrees (code other : Code) : Bool :=
  code.instructions.isEqv other.instructions Instruction.agrees &&
    (code.constants.isEmpty && other.constants.isEmpty &&
      ((code.name, code.declaration, code.capacity, code.isSealed, code.package) ==
        (other.name, other.declaration, other.capacity, other.isSealed, other.package)))

theorem Operand.eq_of_agrees {a b : Operand} (same : a.agrees b = true) : a = b := by
  unfold agrees at same
  split at same <;> first | rfl | cases same | rw [eq_of_beq same]

theorem Instruction.eq_of_agrees {i j : Instruction} (same : i.agrees j = true) : i = j := by
  obtain ⟨op, operand⟩ := Bool.and_eq_true_iff.1 same
  exact Instruction.mk.injEq .. ▸ ⟨eq_of_beq op, Operand.eq_of_agrees operand⟩

theorem Instruction.eq_of_isEqv {is js : Array Instruction} (same : is.isEqv js agrees = true) :
    is = js := by
  obtain ⟨size, each⟩ := Array.isEqv_iff_rel.1 same
  exact Array.ext size fun i hi _ => eq_of_agrees (each i hi)

theorem Code.eq_of_agrees {code other : Code} (same : code.agrees other = true) : code = other := by
  obtain ⟨instructions, rest⟩ := Bool.and_eq_true_iff.1 same
  obtain ⟨none, rest⟩ := Bool.and_eq_true_iff.1 rest
  obtain ⟨none, none'⟩ := Bool.and_eq_true_iff.1 none
  have list := Instruction.eq_of_isEqv instructions
  have constants := (List.isEmpty_iff.1 none).trans (List.isEmpty_iff.1 none').symm
  have others := eq_of_beq rest
  simp only [Prod.mk.injEq] at others
  obtain ⟨name, declaration, capacity, isSealed, package⟩ := others
  cases code
  cases other
  subst name declaration list capacity isSealed constants package
  rfl

/-- What a compilation is computed to give. -/
theorem CompileM.exists_compiled (source : String) (c : Compiler) (P : Code → Compiler → Prop)
    [∀ code c', Decidable (P code c')] (computed : (match compile source c with
      | (.ok code, c') => decide (P code c')
      | _ => false) = true) :
    ∃ code c', compile source c = (.ok code, c') ∧ P code c' := by
  split at computed
  · exact ⟨_, _, ‹_›, of_decide_eq_true computed⟩
  · cases computed

/-- A compilation that is computed to give a unit. -/
theorem CompileM.compile_of_agrees {source : String} {c : Compiler} {code : Code}
    (computed : (match (compile source c).1 with
      | .ok made => made.agrees code
      | _ => false) = true) : (compile source c).1 = .ok code := by
  split at computed
  · rw [‹(compile source c).1 = _›, Code.eq_of_agrees computed]
  · cases computed

/-! ## What a compiler keeps -/

/-- What a compiler keeps for the sources to come: everything but the source that it has read and
the code that it has emitted. -/
def Compiler.kept (c : Compiler) : Compiler := c.opened [] "" 0

theorem Compiler.opened_of_kept {c c' : Compiler} (same : c.kept = c'.kept) (tokens : List Token)
    (source : String) : c.opened tokens source 0 = c'.opened tokens source 0 :=
  -- opening a source once more overwrites what opening it has set
  congrArg (fun kept => kept.opened tokens source 0) same

namespace CompileM

variable {c c' : Compiler} {source : String}

/-- A sequence whose first part has failed has failed. -/
theorem bind_of_error {α β : Type} {m : CompileM α} {f : α → CompileM β} {fault : Fault}
    (h : m c = (.error fault, c')) : (m >>= f) c = (.error fault, c') := by
  simp only [Bind.bind, ExceptT.bind, ExceptT.mk, StateT.bind, h]
  rfl

theorem importDepth_eq (c : Compiler) :
    importDepth c = (.ok ((c.files.texts.length + 1) * pathLimit), c) := rfl

theorem openSource_unscanned {f : Fault} (failed : Token.scanAll source = .error f) :
    openSource source c = (.error (f.inModule c.moduleName), c) := by
  have cursor : Token.Cursor.ofSource source = .error f := by
    rw [Token.Cursor.ofSource, failed]
    rfl
  refine (bind_of_ok (get_eq c)).trans ?_
  rw [cursor]
  rfl

/-- A source that cannot be split into tokens is refused, and the compiler stays as it was. -/
theorem compile_unscanned {f : Fault} (failed : Token.scanAll source = .error f) :
    compile source c = (.error (f.inModule c.moduleName), c) :=
  (bind_of_ok (importDepth_eq c)).trans
    (bind_of_error (bind_of_error (bind_of_error (openSource_unscanned failed))))

/-- A source that is split into tokens is compiled as if nothing had been read or emitted before. -/
theorem compile_opened {tokens : List Token} (scanned : Token.scanAll source = .ok tokens) :
    compile source c = (do
      let rules ← openedRules (packageTo ((c.files.texts.length + 1) * pathLimit))
      repeatWhile do
        if ← atEnd then pure false
        else
          rules.statement
          pure true
      finish : CompileM Code) (c.opened tokens source 0) := by
  refine (bind_of_ok (importDepth_eq c)).trans ?_
  simp only [statementsWith, bind_assoc]
  exact bind_of_ok (openStatements_of scanned)

/-- What comes of a source, and what is kept, depend only on what was kept before. -/
theorem compile_of_kept (same : c.kept = c'.kept) (source : String) :
    (compile source c).1 = (compile source c').1 ∧
      (compile source c).2.kept = (compile source c').2.kept := by
  cases scanned : Token.scanAll source with
  | error f =>
    have name : c.moduleName = c'.moduleName := congrArg (fun kept => kept.moduleName) same
    rw [compile_unscanned scanned, compile_unscanned scanned, name]
    exact ⟨rfl, same⟩
  | ok tokens =>
    have files : c.files = c'.files := congrArg (fun kept => kept.files) same
    rw [compile_opened scanned, compile_opened scanned, files, Compiler.opened_of_kept same]
    exact ⟨rfl, rfl⟩

/-- What comes of sources that one compiler is given one after the other, whether it can compile
them or not, and the compiler afterwards. -/
def session : List String → Compiler → List (Except Fault Code) × Compiler
  | [], c => ([], c)
  | source :: rest, c =>
    let (result, c) := compile source c
    let (results, c) := session rest c
    (result :: results, c)

theorem session_cons (source : String) (rest : List String) (c : Compiler) :
    session (source :: rest) c =
      ((compile source c).1 :: (session rest (compile source c).2).1,
        (session rest (compile source c).2).2) := rfl

theorem session_append (before after : List String) (c : Compiler) :
    session (before ++ after) c =
      ((session before c).1 ++ (session after (session before c).2).1,
        (session after (session before c).2).2) := by
  induction before generalizing c with
  | nil => rfl
  | cons source before ih =>
    rw [List.cons_append, session_cons, session_cons, ih]
    rfl

/-- What comes of a session depends only on what the compiler kept from the sources before it. -/
theorem session_of_kept (same : c.kept = c'.kept) (sources : List String) :
    (session sources c).1 = (session sources c').1 ∧
      (session sources c).2.kept = (session sources c').2.kept := by
  induction sources generalizing c c' with
  | nil => exact ⟨rfl, same⟩
  | cons source rest ih =>
    obtain ⟨result, kept⟩ := compile_of_kept same source
    obtain ⟨results, kept⟩ := ih kept
    exact ⟨congrArg₂ List.cons result results, kept⟩

/-- A source that cannot be split into tokens is refused and leaves nothing behind for those after it. -/
theorem session_unscanned {f : Fault} (failed : Token.scanAll source = .error f)
    (before after : List String) (c : Compiler) :
    session (before ++ source :: after) c =
      ((session before c).1 ++ .error (f.inModule (session before c).2.moduleName) ::
          (session after (session before c).2).1,
        (session after (session before c).2).2) := by
  rw [session_append, session_cons, compile_unscanned failed]

/-- A failed compilation after which the compiler keeps what it kept before is forgotten: what comes of
the sources after it is what comes of them without it. A source that cannot be split into tokens is
refused and leaves the compiler as it is altogether. -/
theorem session_forgets (before after : List String) (source : String) (c : Compiler) :
    (∀ f, (compile source (session before c).2).1 = .error f →
      (compile source (session before c).2).2.kept = (session before c).2.kept →
        (session (before ++ source :: after) c).1 =
          (session before c).1 ++ .error f :: (session after (session before c).2).1 ∧
        (session (before ++ source :: after) c).2.kept =
          (session after (session before c).2).2.kept) ∧
    ∀ f, Token.scanAll source = .error f →
      session (before ++ source :: after) c =
        ((session before c).1 ++ .error (f.inModule (session before c).2.moduleName) ::
            (session after (session before c).2).1,
          (session after (session before c).2).2) := by
  constructor
  · intro f failed kept
    obtain ⟨results, left⟩ := session_of_kept kept after
    rw [session_append, session_cons, failed, results]
    exact ⟨rfl, left⟩
  · intro f failed
    exact session_unscanned failed before after c

/-- A sum that breaks off and a text that is not closed are refused, and the declaration behind them is
compiled all the same. -/
theorem broken_sum_forgotten :
    (session ["1 +", "x := 1"] (.new "test" {})).1.map (fun r => (r.mapError (·.kind)).map Code.size) =
      [.error .unexpectedEnd, .ok 4] ∧
    session ["\"", "x := 1"] (.new "test" {}) =
      (.error (((Fault.of .unterminatedString).positioned 1 1).inModule "test") ::
          (session ["x := 1"] (.new "test" {})).1,
        (session ["x := 1"] (.new "test" {})).2) := by
  have fails : (fun r : Except Fault Code => (r.mapError (·.kind)).map Code.size)
      (compile "1 +" (.new "test" {})).1 = .error .unexpectedEnd := by decide +kernel
  have kept : (compile "1 +" (.new "test" {})).2.kept = (Compiler.new "test" {}).kept := by
    with_unfolding_all rfl
  have alone : (session ["x := 1"] (.new "test" {})).1.map
      (fun r => (r.mapError (·.kind)).map Code.size) = [.ok 4] := by decide +kernel
  constructor
  · cases failed : (compile "1 +" (.new "test" {})).1 with
    | ok code =>
      rw [failed] at fails
      cases fails
    | error f =>
      have forgets := (session_forgets [] ["x := 1"] "1 +" (.new "test" {})).1 f failed kept
      rw [failed] at fails
      have kind : f.kind = .unexpectedEnd := Except.error.inj fails
      rw [show ["1 +", "x := 1"] = [] ++ "1 +" :: ["x := 1"] from rfl, forgets.1]
      simp only [session, List.nil_append, List.map_cons, Except.mapError, kind] at alone ⊢
      rw [alone]
      rfl
  · exact (session_forgets [] ["x := 1"] "\"" (.new "test" {})).2 _ (by decide +kernel)

/-- A declaration that breaks off has declared its name, so that the name cannot be declared
again. -/
theorem broken_declaration_stays :
    ((session ["x := 1 +", "x := 1"] (.new "test" {})).1.map fun r =>
        (r.mapError (·.kind)).map Code.size) = [.error .unexpectedEnd, .error .duplicateDeclaration] ∧
      ((session ["x := 1"] (.new "test" {})).1.map fun r => (r.mapError (·.kind)).map Code.size) =
        [.ok 4] := by
  exact ⟨by decide +kernel, by decide +kernel⟩

end CompileM

end StackScript
