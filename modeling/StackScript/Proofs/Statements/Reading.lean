import StackScript.Proofs.Statements.Heads
import StackScript.Proofs.Statements.Writing

/-!
# Reading statements

From tokens that spell a statement the compiler makes the code of the statement. What it knows of
names, lines and loops changes apart from the code: `hasMade` is the compiler afterwards.

Main statement: `Laid.isRead`, by one lemma for each construct.
-/
namespace StackScript

open CompileM

namespace Compiler

/-- A compiler where a statement stands: in a block in which no names but these are declared and, in
a loop, so many scopes below that loop. -/
structure Inside (c : Compiler) (names : List String) (inLoop : Bool) (depth : Nat) : Prop where
  types : c.structTypes = []
  scope : ∃ top outer, c.draft.scopes = top :: outer ∧ ∀ x ∈ top, x ∈ names
  loop : inLoop = true → ∃ l outer, c.draft.loops = l :: outer ∧ l.kind = .loop ∧
    l.scopeDepth + depth = c.draft.scopeDepth ∧ l.tryDepth = c.draft.tryDepth

/-- The compiler that has read a statement from so many tokens. -/
def hasMade (c : Compiler) (count : Nat) (s : Stmt) (depth : Nat) : Compiler :=
  ((c.declaring (s.names c.spelling)).atLine (s.lastLine c.draft.lastLine)).wrote count
    (s.slots c.spelling c.here c.draft.lastLine depth)

end Compiler

variable {package : String → String → Option String → CompileM CodeRef} {depth : Nat}
variable {c c' : Compiler} {t : Token} {ts us : List Token} {rules : Nested}

/-- How much can be read depends on the tokens that are left, and on whether code is open. -/
theorem Reading.of_cursor (h : Reading package depth c ts) (cursor : c'.cursor = c.cursor)
    (unsealed : c'.draft.code.isSealed = false) : Reading package depth c' ts := by
  obtain ⟨⟨_, last, noType⟩, ahead, deep⟩ := h
  refine ⟨⟨unsealed, ?_, ?_⟩, ?_, deep⟩
  · rwa [cursor]
  · rwa [cursor]
  · rwa [Compiler.Ahead, cursor]

theorem Compiler.Stops.of_cursor {p : Precedence} (h : c.Stops p) (cursor : c'.cursor = c.cursor)
    (literals : c'.noStructLiteral = c.noStructLiteral) (types : c'.structTypes = c.structTypes) :
    c'.Stops p := by
  have line : c'.sameLine = c.sameLine := by rw [sameLine, cursor, sameLine]
  obtain ⟨access, brace, operators, choice, identifier, type⟩ := h
  constructor <;> simpa only [line, cursor, literals, types]

namespace Compiler.Inside

variable {names : List String} {inLoop : Bool} {level : Nat}

theorem emitted (h : c.Inside names inLoop level) (n : Nat) (is : List Instruction) :
    (c.emitted n is).Inside names inLoop level := ⟨h.types, h.scope, h.loop⟩

theorem atLine (h : c.Inside names inLoop level) (line : Nat) :
    (c.atLine line).Inside names inLoop level := ⟨h.types, h.scope, h.loop⟩

theorem wrote (h : c.Inside names inLoop level) (n : Nat) (a : List Slot) :
    (c.wrote n a).Inside names inLoop level := by
  refine ⟨h.types, h.scope, fun loop => ?_⟩
  obtain ⟨l, outer, loops, kind, scopeDepth, tryDepth⟩ := h.loop loop
  refine ⟨l.noted c.here a, outer, ?_, kind, scopeDepth, tryDepth⟩
  exact congrArg (noteLeaves c.here a) loops

theorem declaring (h : c.Inside names inLoop level) (xs : List String) :
    (c.declaring xs).Inside (names ++ xs) inLoop level := by
  refine ⟨h.types, ?_, h.loop⟩
  obtain ⟨top, outer, scopes, known⟩ := h.scope
  refine ⟨xs.reverse ++ top, outer, congrArg (declareIn xs) scopes, fun x mem => ?_⟩
  rcases List.mem_append.1 mem with mem | mem
  · exact List.mem_append_right _ (List.mem_reverse.1 mem)
  · exact List.mem_append_left _ (known x mem)

theorem deeper (h : c.Inside names inLoop level) : c.deeper.Inside [] inLoop (level + 1) := by
  refine ⟨h.types, ⟨[], c.draft.scopes, rfl, nofun⟩, fun loop => ?_⟩
  obtain ⟨l, outer, loops, kind, scopeDepth, tryDepth⟩ := h.loop loop
  refine ⟨l, outer, loops, kind, ?_, tryDepth⟩
  rw [← Nat.add_assoc, scopeDepth]
  rfl

theorem looping (h : c.Inside names inLoop level) : c.looping.Inside names true 0 :=
  ⟨h.types, h.scope, fun _ => ⟨_, _, rfl, rfl, rfl, rfl⟩⟩

theorem inScope (h : c.Inside names inLoop level) : c.draft.scopes ≠ [] := by
  obtain ⟨top, outer, scopes, -⟩ := h.scope
  rw [scopes]
  exact List.cons_ne_nil _ _

end Compiler.Inside

/-! ## Assignments -/

theorem target_name (ahead : c.Ahead (t :: us)) (name : t.tag = .identifier)
    (access : (c.emitted 1 []).cursor.isNext "[" = false ∧
      (c.emitted 1 []).cursor.isNext "." = false) :
    target rules c = (.ok (.name (c.spelling t.spelling)), c.emitted 1 []) := by
  have star : c.cursor.isNext "*" = false := by
    rw [ahead.isNext]
    simp [Token.is, name]
  have plain : isAnyNext ["[", "."] (c.emitted 1 []) = (.ok false, c.emitted 1 []) := by
    have : (c.emitted 1 []).cursor.isAnyNext ["[", "."] = false := by
      simp [Token.Cursor.isAnyNext, access]
    rw [← this]
    rfl
  refine (bind_of_ok (accept_other star)).trans ((bind_of_ok (identifier_of ahead name)).trans ?_)
  exact (bind_of_ok plain).trans rfl

theorem targetList_one {place : Target} (read : target rules c = (.ok place, c'))
    (comma : c'.cursor.isNext "," = false) : targetList rules c = (.ok [place], c') := by
  refine (bind_of_ok read).trans ?_
  rw [repeatTurns_eq]
  exact turns_done (bind_of_ok (accept_other comma)) _

theorem isDeclaredHere_eq {top : List String} {outer : List (List String)}
    (scopes : c.draft.scopes = top :: outer) (name : String) :
    isDeclaredHere name c = (.ok (top.contains name), c) := by
  have : isDeclaredHere name c = (.ok (((c.draft.scopes.head?).getD []).contains name), c) := rfl
  rw [this, scopes]
  rfl

theorem declare_new {name : String} {top : List String} {outer : List (List String)}
    (scopes : c.draft.scopes = top :: outer) (missing : top.contains name = false) :
    declare name c = (.ok true, { c with draft := { c.draft with scopes := (name :: top) :: outer } }) := by
  refine (bind_of_ok (get_eq c)).trans ?_
  rw [scopes]
  simp only [missing, Bool.false_eq_true, if_false]
  rfl

/-- A name that was declared at the top level is exported. -/
theorem exportAtTop_then {α : Type} (name : String) (rest : CompileM α) (c : Compiler) :
    (do
      if ← atTopLevel then exportName name
      rest) c = rest { c with
        exports :=
          if c.draft.returns.isNone && c.draft.scopes.length == 1 then c.exports ++ [name]
          else c.exports } := by
  have top : atTopLevel c = (.ok (c.draft.returns.isNone && c.draft.scopes.length == 1), c) := rfl
  refine (bind_of_ok top).trans ?_
  split <;> rfl

/-- A name that is new in its block is declared there. -/
theorem declareTargets_new {name : String} {names : List String} {inLoop : Bool} {level : Nat}
    (inside : c.Inside names inLoop level) (named : name ≠ "_") (new : name ∉ names) :
    declareTargets [.name name] c = (.ok [true], c.declaring [name]) := by
  obtain ⟨top, outer, scopes, known⟩ := inside.scope
  have missing : top.contains name = false := by
    refine Bool.eq_false_iff.2 fun found => new (known name ?_)
    simpa using found
  have isNew : areNew [name] c = (.ok [true], c) := by
    refine (bind_of_ok (isDeclaredHere_eq scopes name)).trans ?_
    simp only [missing, named, ne_eq, not_false_eq_true, decide_true, Bool.not_false, Bool.and_self]
    rfl
  have declares : declareAll [name] c = (.ok (), c.declaring [name]) := by
    obtain ⟨d, hd⟩ : ∃ d, d = { c with draft := { c.draft with scopes := (name :: top) :: outer } } :=
      ⟨_, rfl⟩
    have added := declare_new scopes missing
    rw [← hd] at added
    rw [declareAll, if_pos named]
    refine (bind_of_ok added).trans ((exportAtTop_then name (declareAll []) d).trans ?_)
    rw [hd]
    simp only [Compiler.declaring, scopes, Compiler.declareIn, List.length_cons]
    rfl
  refine (bind_of_ok (a := [name]) rfl).trans ((bind_of_ok isNew).trans ?_)
  exact (bind_of_ok declares).trans rfl

theorem emitStore_name (unsealed : c.draft.code.isSealed = false) (isNew : Bool) (name : String) :
    emitStore isNew (.name name) c = (.ok (), c.emitted 0 (storeCode isNew name)) := by
  unfold storeCode
  by_cases blank : name = "_"
  · rw [if_pos blank]
    simp only [emitStore, if_pos blank]
    exact emit_of unsealed .drop .none
  · rw [if_neg blank]
    simp only [emitStore, if_neg blank]
    cases isNew with
    | false => exact emit_of unsealed .store (.name name)
    | true =>
      refine (bind_of_ok (emit_of unsealed .symbolCreate (.name name))).trans ?_
      exact emit_emitted unsealed 0 [⟨.symbolCreate, .name name⟩] .store (.name name)

/-- The compiler that has read an assignment from so many tokens. -/
def Compiler.hasAssigned (c : Compiler) (count : Nat) (a : Assignment) : Compiler :=
  (c.declaring (a.names c.spelling)).emitted count (a.code c.spelling c.here)

/-- The only target of an assignment takes the value behind the operator. -/
theorem assignValues_of {name : String} {isNew : Bool} {e : Expr} {n : Nat}
    (declares : if isNew then declareTargets [.name name] c = (.ok [true], c') else c' = c)
    (read : rules.expression c' = (.ok (), c'.emitted n (e.code c.spelling c.here)))
    (unsealed : c'.draft.code.isSealed = false) :
    assignValues rules [.name name] isNew c =
      (.ok (), c'.emitted n (e.code c.spelling c.here ++ storeCode isNew name)) := by
  have stored : (do rules.expression; emitStore isNew (.name name)) c' =
      (.ok (), c'.emitted n (e.code c.spelling c.here ++ storeCode isNew name)) := by
    refine (bind_of_ok read).trans ((emitStore_name ?_ isNew name).trans ?_)
    · exact (c'.emitted_isSealed _ _).trans unsealed
    · rw [Compiler.emitted_emitted]
      rfl
  cases isNew with
  | true =>
    rw [if_pos rfl] at declares
    exact (bind_of_ok declares).trans stored
  | false =>
    rw [if_neg Bool.false_ne_true] at declares
    subst declares
    exact stored

theorem next_of (ahead : c.Ahead (t :: ts)) : CompileM.next c = (.ok t, c.emitted 1 []) :=
  (bind_of_ok (current_of ahead)).trans ((bind_of_ok (skip_of ahead)).trans rfl)

theorem assignment_of {a : Assignment} {names : List String} {inLoop : Bool} {level : Nat}
    (laid : a.Laid ts) (reading : Reading package depth c ts) (inside : c.Inside names inLoop level)
    (proper : a.Proper c.spelling names) (stops : (c.emitted ts.length []).Stops .choice) :
    assignment (rulesTo package (depth + 1)) c = (.ok (), c.hasAssigned ts.length a) := by
  cases laid with
  | @intro t op isNew e ts name word line value =>
    have isOp := Token.is_of_word word
    have opAhead := reading.ahead.tail []
    have others (text : String) (other : text ∉ [":=", "="]) :
        (c.emitted 1 []).cursor.isNext text = false := by
      rw [opAhead.isNext]
      refine Token.is_other isOp ?_
      rintro rfl
      cases isNew <;> exact other (by decide)
    have targets : targetList (rulesTo package (depth + 1)) c =
        (.ok [.name (c.spelling t.spelling)], c.emitted 1 []) := targetList_one
      (target_name reading.ahead name ⟨others _ (by decide), others _ (by decide)⟩)
      (others "," (by decide))
    -- the value is read by a compiler that knows the name
    obtain ⟨known, hknown⟩ : ∃ c', c' =
        (c.declaring (Assignment.names c.spelling ⟨isNew, t.spelling, e⟩)).emitted 2 [] := ⟨_, rfl⟩
    have cursor : (known.emitted ts.length []).cursor = (c.emitted (t :: op :: ts).length []).cursor := by
      rw [hknown, Compiler.emitted_emitted, List.length_cons, List.length_cons, Nat.add_comm 2]
      rfl
    have behind : Reading package depth known ts := by
      subst hknown
      exact .of_cursor ((reading.tail []).tail []) rfl reading.ready.unsealed
    have read : (rulesTo package (depth + 1)).expression known =
        (.ok (), known.emitted ts.length (e.code c.spelling c.here)) := by
      have parsed := value.parses behind (stops.of_cursor cursor (by rw [hknown]; rfl) (by rw [hknown]; rfl))
      rw [Compiler.hasRead, hknown] at parsed
      rw [hknown]
      exact parsed
    have declares : if isNew then
        declareTargets [.name (c.spelling t.spelling)] (c.emitted 2 []) = (.ok [true], known)
        else known = c.emitted 2 [] := by
      split
      · rename_i new
        obtain ⟨named, new'⟩ := proper new
        subst hknown new
        exact declareTargets_new (inside.emitted 2 []) named new'
      · rename_i old
        rw [hknown, Assignment.names, if_neg old, Compiler.declaring_nothing]
    have assigns := assignValues_of (c := c.emitted 2 []) declares read behind.ready.unsealed
    have done : known.emitted ts.length (e.code c.spelling c.here ++ storeCode isNew (c.spelling t.spelling)) =
        c.hasAssigned (t :: op :: ts).length ⟨isNew, t.spelling, e⟩ := by
      rw [hknown, Compiler.emitted_emitted, Nat.add_comm 2]
      rfl
    rw [← done]
    refine (bind_of_ok targets).trans ((bind_of_ok (next_of opAhead)).trans ?_)
    cases isNew with
    | true =>
      have spelling : op.spelling = ":=" := (Prod.mk.inj word).2
      simp only [spelling]
      exact assigns
    | false =>
      have spelling : op.spelling = "=" := (Prod.mk.inj word).2
      simp only [spelling]
      exact assigns

theorem classify_laid {a : Assignment} (laid : a.Laid ts) (ahead : c.Ahead ts) :
    classify c = (.ok .assignment, c) := by
  cases laid with
  | intro name word line => exact classify_assignment ahead name word line

theorem simpleStatement_of {a : Assignment} {names : List String} {inLoop : Bool} {level : Nat}
    (laid : a.Laid ts) (reading : Reading package depth c ts) (inside : c.Inside names inLoop level)
    (proper : a.Proper c.spelling names) (stops : (c.emitted ts.length []).Stops .choice) :
    simpleStatement (rulesTo package (depth + 1)) c = (.ok (), c.hasAssigned ts.length a) :=
  (bind_of_ok (classify_laid laid reading.ahead)).trans
    (assignment_of laid reading inside proper stops)

/-! ## Heads -/

theorem inHead_of {step : CompileM Unit}
    (h : step (c.withoutLiterals true) = (.ok (), c'.withoutLiterals true))
    (same : c'.noStructLiteral = c.noStructLiteral) : inHead step c = (.ok (), c') := by
  unfold inHead
  change ((step (c.withoutLiterals true)).1,
    (step (c.withoutLiterals true)).2.withoutLiterals c.noStructLiteral) = _
  rw [h, ← same]
  rfl

/-- A statement in a head is read as elsewhere. -/
theorem headStatement_of {a : Assignment} {names : List String} {inLoop : Bool} {level : Nat}
    (laid : a.Laid ts) (reading : Reading package depth c ts) (inside : c.Inside names inLoop level)
    (proper : a.Proper c.spelling names) (stops : (c.emitted ts.length []).Stops .choice) :
    inHead (simpleStatement (rulesTo package (depth + 1))) c = (.ok (), c.hasAssigned ts.length a) := by
  have inside' : (c.withoutLiterals true).Inside names inLoop level :=
    ⟨inside.types, inside.scope, inside.loop⟩
  refine inHead_of (simpleStatement_of laid (reading.withoutLiterals true) inside' proper ?_) rfl
  exact ⟨stops.access, fun _ => .inl rfl, stops.operators, stops.choice, stops.identifier, stops.type⟩

theorem condition_of {e : Expr} (laid : e.Laid ts) (reading : Reading package depth c ts)
    (stops : (c.emitted ts.length []).Stops .choice) :
    condition (rulesTo package (depth + 1)) c = (.ok (), c.hasRead ts e) := by
  refine inHead_of (laid.parses (reading.withoutLiterals true) ?_) rfl
  exact ⟨stops.access, fun _ => .inl rfl, stops.operators, stops.choice, stops.identifier, stops.type⟩

/-- The brace of a body ends what stands before it when no type is known. -/
theorem Compiler.Stops.of_brace (ahead : c.Ahead (t :: ts)) (word : t.word = mark "\x7b")
    (types : c.structTypes = []) : c.Stops .choice := by
  have is := Token.is_of_word word
  have other (text : String) (ne : "\x7b" ≠ text) : c.cursor.isNext text = false := by
    rw [ahead.isNext]
    exact Token.is_other is ne
  refine ⟨fun text mem => other text ?_, fun _ => .inr types, fun _ q _ text mem => other text ?_,
    fun _ _ => other _ (by decide), fun _ => ?_, fun _ text mem => other text ?_⟩
  · rintro rfl
    exact absurd mem (by decide)
  · rintro rfl
    cases q <;> exact absurd mem (by decide)
  · rw [ahead.current, Token.isIdentifier, (Prod.mk.inj word).1]
    rfl
  · rintro rfl
    exact absurd mem (by decide)

/-! ## Scopes and lines -/

theorem pushScope_of (unsealed : c.draft.code.isSealed = false) :
    pushScope c = (.ok (), c.deeper.wrote 0 (plain [⟨.pushScope, .none⟩])) := by
  refine (bind_of_ok (emit_of unsealed .pushScope .none)).trans ?_
  rw [← Compiler.emitted_eq_wrote]
  rfl

theorem popScope_of {n line : Nat} {a : List Slot} (inScope : c.draft.scopes ≠ [])
    (unsealed : c.draft.code.isSealed = false) (declared : List String) :
    popScope (((c.deeper.declaring declared).atLine line).wrote n a) =
      (.ok (), (c.atLine line).wrote n (a ++ plain [popScopes 1])) := by
  have emits := emit_of (c := ((c.deeper.declaring declared).atLine line).wrote n a)
    ((Compiler.wrote_isSealed ..).trans unsealed) .popScope (.int (Int64.ofNat 1))
  rw [Compiler.wrote_emitted] at emits
  refine (bind_of_ok emits).trans ?_
  change (Except.ok (), ((c.deeper.declaring declared).shallower.atLine line).wrote n _) = _
  rw [Compiler.shallower_deeper c inScope]
  rfl

theorem atLine_of (ahead : c.Ahead (t :: ts)) (unsealed : c.draft.code.isSealed = false) :
    atLine c = (.ok (), (c.atLine (lineAfter t.line c.draft.lastLine)).wrote 0
      (plain (lineCode t.line c.draft.lastLine))) := by
  refine (bind_of_ok (current_of ahead)).trans ((bind_of_ok (get_eq c)).trans ?_)
  unfold lineAfter lineCode
  split
  · refine (bind_of_ok (emit_of unsealed .atLine _)).trans ?_
    rw [← Compiler.emitted_eq_wrote]
    rfl
  · exact congrArg (Prod.mk _) (Compiler.wrote_nothing c).symm

/-! ## Statements -/

/-- The steps that read a statement which starts with the next token. -/
def startedStatement (rules : Nested) : CompileM Unit := do
  let t ← current
  if t.is "\x7b" then block rules
  else if t.is "@" then directive rules
  else if t.tag == .reserved then keywordStatement rules t.spelling
  else simpleStatement rules

/-- The steps that read what ends a statement. -/
def statementEnd : CompileM Unit := do
  if !(← accept ";") then
    if !(← atStatementEnd) then fail .unexpectedToken

/-- A statement is read behind its line and before its end. -/
theorem statementWith_of {c₁ c₂ c₃ : Compiler} (ahead : c.Ahead (t :: ts)) (other : t.is ";" = false)
    (noted : atLine c = (.ok (), c₁)) (ahead' : c₁.Ahead (t :: us))
    (body : startedStatement rules c₁ = (.ok (), c₂)) (ends : statementEnd c₂ = (.ok (), c₃)) :
    statementWith rules c = (.ok (), c₃) := by
  have semicolon : c.cursor.isNext ";" = false := by rw [ahead.isNext, other]
  have here := current_of ahead'
  refine (bind_of_ok (accept_other semicolon)).trans ((bind_of_ok noted).trans ?_)
  refine (bind_of_ok here).trans ?_
  replace body := (bind_of_ok here).symm.trans body
  dsimp only at body ⊢
  by_cases brace : t.is "\x7b"
  · rw [if_pos brace] at body ⊢
    exact (bind_of_ok body).trans ends
  · rw [if_neg brace] at body ⊢
    by_cases sign : t.is "@"
    · rw [if_pos sign] at body ⊢
      exact (bind_of_ok body).trans ends
    · rw [if_neg sign] at body ⊢
      by_cases reserved : t.tag == .reserved
      · rw [if_pos reserved] at body ⊢
        exact (bind_of_ok body).trans ends
      · rw [if_neg reserved] at body ⊢
        exact (bind_of_ok body).trans ends

theorem atStatementEnd_eq (c : Compiler) :
    atStatementEnd c =
      (.ok (c.cursor.atEnd || c.cursor.isAnyNext [";", "\x7d"] || !c.sameLine), c) := by
  have atEnd : atEnd c = (.ok c.cursor.atEnd, c) := rfl
  have any : isAnyNext [";", "\x7d"] c = (.ok (c.cursor.isAnyNext [";", "\x7d"]), c) := rfl
  refine (bind_of_ok atEnd).trans ?_
  cases c.cursor.atEnd with
  | true => rfl
  | false =>
    refine (bind_of_ok any).trans ?_
    cases c.cursor.isAnyNext [";", "\x7d"] with
    | true => rfl
    | false => exact bind_of_ok (sameLine_eq c)

theorem statementEnd_semicolon (ahead : c.Ahead (t :: ts)) (is : t.is ";") :
    statementEnd c = (.ok (), c.emitted 1 []) := (bind_of_ok (accept_of ahead is)).trans rfl

/-- A statement may also end without a semicolon. -/
theorem statementEnd_of (ended : c.Ended) (other : c.cursor.isNext ";" = false) : statementEnd c = (.ok (), c) := by
  have ends : (c.cursor.atEnd || c.cursor.isAnyNext [";", "\x7d"] || !c.sameLine) = true := by
    cases ended with
    | last atEnd => simp [atEnd]
    | semicolon next => simp [Token.Cursor.isAnyNext, next]
    | brace next => simp [Token.Cursor.isAnyNext, next]
    | line alone => simp [alone]
  refine (bind_of_ok (accept_other other)).trans ((bind_of_ok (atStatementEnd_eq c)).trans ?_)
  rw [ends]
  rfl

/-- A semicolon on its own is an empty statement. -/
theorem statementWith_semicolon (ahead : c.Ahead (t :: ts)) (is : t.is ";") :
    statementWith rules c = (.ok (), c.emitted 1 []) := (bind_of_ok (accept_of ahead is)).trans rfl

/-- Steps make the code of a statement from tokens, if what stands behind them ends it; their rules
are so many levels above the number of the tokens. -/
def Made (levels : Nat) (step : Nested → CompileM Unit) (behind : Compiler → Prop) (s : Stmt)
    (ts : List Token) : Prop :=
  ∀ ⦃package : String → String → Option String → CompileM CodeRef⦄ ⦃depth : Nat⦄ ⦃c : Compiler⦄
    ⦃names : List String⦄ ⦃inLoop : Bool⦄ ⦃level : Nat⦄,
    Reading package depth c ts → c.Inside names inLoop level → s.Proper c.spelling names inLoop →
    behind (c.emitted ts.length []) →
    step (rulesTo package (depth + levels)) c = (.ok (), c.hasMade ts.length s level)

/-- Turns that each read a statement before the end of a block, or of the source. -/
def ReadsStatements (rules : Nested) (turn : CompileM Bool) : Prop :=
  ∀ {c c' : Compiler} {t : Token} {ts : List Token}, c.Ahead (t :: ts) → t.is "\x7d" = false →
    rules.statement c = (.ok (), c') → turn c = (.ok true, c')

/-- Turns make the code of statements from tokens behind which nothing more is to be read. -/
def MadeInTurns (s : Stmt) (ts : List Token) : Prop :=
  ∀ ⦃package : String → String → Option String → CompileM CodeRef⦄ ⦃depth : Nat⦄ ⦃c : Compiler⦄
    ⦃names : List String⦄ ⦃inLoop : Bool⦄ ⦃level left : Nat⦄ ⦃turn : CompileM Bool⦄,
    Reading package depth c ts → c.Inside names inLoop level → s.Proper c.spelling names inLoop →
    (c.emitted ts.length []).Closed →
    ReadsStatements (rulesTo package (depth + 3)) turn → ts.length ≤ left →
    ∃ left', left ≤ left' + ts.length ∧ turns (whileTurn turn) left () c =
      turns (whileTurn turn) left' () (c.hasMade ts.length s level)

theorem Compiler.wrote_hasMade (c : Compiler) (m n : Nat) (a : List Slot) (s : Stmt) (level : Nat) :
    (c.wrote m a).hasMade n s level =
      ((c.declaring (s.names c.spelling)).atLine (s.lastLine c.draft.lastLine)).wrote (m + n)
        (a ++ s.slots c.spelling (c.here + a.length) c.draft.lastLine level) := by
  rw [hasMade, wrote_here, declaring_wrote, atLine_wrote, wrote_wrote]
  rfl

/-- What was read before belongs to what was read for a statement. -/
theorem Compiler.emitted_hasMade (c : Compiler) (m n : Nat) (s : Stmt) (level : Nat) :
    (c.emitted m []).hasMade n s level = c.hasMade (m + n) s level := by
  rw [emitted_eq_wrote, wrote_hasMade]
  rfl

theorem Compiler.hasMade_next (c : Compiler) (line m n : Nat) (first rest : Stmt) (level : Nat) :
    (((c.atLine (lineAfter line c.draft.lastLine)).wrote 0
      (plain (lineCode line c.draft.lastLine))).hasMade m first level).hasMade n rest level =
      c.hasMade (m + n) (.next line first rest) level := by
  rw [wrote_hasMade, wrote_hasMade, Nat.zero_add]
  have names := (c.declaring_declaring (first.names c.spelling) (rest.names c.spelling)).symm
  rw [hasMade, Stmt.names, names, List.length_append, ← Nat.add_assoc]
  refine congrArg₂ (Compiler.wrote · (m + n) ·) ?_ ?_
  · rfl
  · rw [plain_length]
    rfl

theorem Compiler.hasMade_nothing (c : Compiler) (level : Nat) : c.hasMade 0 .nothing level = c := by
  change ((c.declaring []).atLine c.draft.lastLine).wrote 0 [] = c
  rw [declaring_nothing, wrote_nothing]
  rfl

theorem MadeInTurns.finish : MadeInTurns .nothing [] := by
  intro package depth c names inLoop level left turn _ _ _ _ _ _
  exact ⟨left, Nat.le_add_right _ _, by rw [List.length_nil, c.hasMade_nothing]⟩

theorem MadeInTurns.semicolon {s : Stmt} (word : t.word = mark ";") (rest : MadeInTurns s ts) :
    MadeInTurns s (t :: ts) := by
  intro package depth c names inLoop level left turn reading inside proper closed reads enough
  obtain ⟨left, rfl⟩ : ∃ l, left = l + 1 := ⟨left - 1, by simp at enough; omega⟩
  rw [List.length_cons] at enough closed ⊢
  have is := Token.is_of_word word
  have turned := reads reading.ahead (Token.is_other is (by decide))
    (statementWith_semicolon reading.ahead is)
  have closed' : ((c.emitted 1 []).emitted ts.length []).Closed := by
    rwa [Compiler.emitted_emitted, Nat.add_comm]
  obtain ⟨left', le, all⟩ := rest (reading.tail []) (inside.emitted 1 []) proper closed' reads
    (Nat.le_of_succ_le_succ enough)
  refine ⟨left', by omega, (while_again turned left).trans (all.trans ?_)⟩
  rw [c.emitted_hasMade, Nat.add_comm]

/-- A sequence that no semicolon starts starts with a statement. -/
theorem Laid.sequence_starts {s : Stmt} (h : Laid (.sequence s) (t :: ts)) (no : t.is ";" = false) :
    t.Starts := by
  generalize htokens : t :: ts = tokens at h
  cases h with
  | finish => cases htokens
  | semicolon word =>
    cases htokens
    rw [Token.is_of_word word] at no
    cases no
  | next one =>
    obtain ⟨u, rest, first, starts⟩ := one.starts
    cases first
    cases htokens
    exact starts

/-- What stands behind a statement of a sequence ends it. -/
theorem Separated.ended {s : Stmt} {te tr : List Token} (ends : Separated (t :: ts) te tr)
    (others : Laid (.sequence s) tr) (ahead : c.Ahead (t :: ts ++ te ++ tr))
    (closed : (c.emitted (t :: ts ++ te ++ tr).length []).Closed) :
    (c.emitted (t :: ts).length []).Ended := by
  rw [List.append_assoc] at ahead
  have behind := ahead.right []
  cases ends with
  | semicolon word =>
    refine .semicolon ?_
    rw [behind.isNext]
    exact Token.is_of_word word
  | last =>
    rw [List.append_nil, List.append_nil] at closed
    exact closed.ended
  | line other no =>
    have same := Compiler.Ahead.sameLine_eq ahead (List.cons_ne_nil _ _) []
    refine .line (same.trans (beq_eq_false_iff_ne.2 ?_)) ?_
    · exact other _ (List.getLast?_eq_getLast_of_ne_nil _)
    · rw [behind.current]
      exact others.sequence_starts no

/-- After a statement what separates it from the next one is read. -/
theorem Separated.read {te tr : List Token} (ends : Separated (t :: ts) te tr)
    (ahead : c.Ahead (te ++ tr)) (ended : c.Ended) (last : c.cursor.last.tag = .endOfInput)
    (closed : (c.emitted (te ++ tr).length []).Closed) :
    statementEnd c = (.ok (), c.emitted te.length []) := by
  cases ends with
  | semicolon word => exact statementEnd_semicolon ahead (Token.is_of_word word)
  | last =>
    refine statementEnd_of ended ?_
    rcases closed with atEnd | brace
    · exact Compiler.isNext_atEnd atEnd last ";"
    · exact Token.is_other brace (by decide)
  | line other no =>
    refine statementEnd_of ended ?_
    rw [Compiler.Ahead.isNext ahead, no]

theorem Token.Starts.other (h : t.Starts) {text : String} (other : text ∉ Stmt.starts) :
    t.is text = false := Compiler.Starts.isNext h other

theorem MadeInTurns.next {first rest : Stmt} {te tr : List Token}
    (one : Made 2 startedStatement Compiler.Ended first (t :: ts)) (starts : t.Starts)
    (ends : Separated (t :: ts) te tr) (laid : Laid (.sequence rest) tr)
    (others : MadeInTurns rest tr) : MadeInTurns (.next t.line first rest) (t :: ts ++ te ++ tr) := by
  intro package depth c names inLoop level left turn reading inside proper closed reads enough
  obtain ⟨left, rfl⟩ : ∃ l, left = l + 1 := ⟨left - 1, by simp at enough; omega⟩
  have ended := ends.ended laid reading.ahead closed
  have unsealed := reading.ready.unsealed
  -- the line is noted before the statement is read
  obtain ⟨c₁, hc₁⟩ : ∃ c', c' = (c.atLine (lineAfter t.line c.draft.lastLine)).wrote 0
      (plain (lineCode t.line c.draft.lastLine)) := ⟨_, rfl⟩
  have noted := atLine_of reading.ahead unsealed
  rw [← hc₁] at noted
  have reading₁ : Reading package depth c₁ (t :: ts ++ te ++ tr) := by
    subst hc₁
    exact reading.of_cursor rfl ((Compiler.wrote_isSealed ..).trans unsealed)
  have inside₁ : c₁.Inside names inLoop level := hc₁ ▸ (inside.atLine _).wrote 0 _
  have proper₁ : first.Proper c₁.spelling names inLoop := by
    subst hc₁
    exact proper.1
  have cursor₁ : c₁.cursor = (c.emitted 0 []).cursor := by rw [hc₁]; rfl
  have made := one reading₁.left.left inside₁ proper₁
    (ended.of_cursor (c.emitted_cursor _ _ cursor₁ (Nat.zero_add _).symm))
  -- what ends it is read behind it
  obtain ⟨c₂, hc₂⟩ : ∃ c', c' = c₁.hasMade (t :: ts).length first level := ⟨_, rfl⟩
  rw [← hc₂] at made
  have cursor₂ : c₂.cursor = (c.emitted (t :: ts).length []).cursor := by
    rw [hc₂]
    exact c.emitted_cursor [] [] cursor₁ (Nat.zero_add _).symm
  have whole : t :: ts ++ te ++ tr = t :: ts ++ (te ++ tr) := List.append_assoc ..
  rw [whole] at closed enough ⊢
  have ready₁ := whole ▸ reading₁
  have reading₂ : Reading package depth c₂ (te ++ tr) := by
    refine (whole ▸ reading : Reading package depth c (t :: ts ++ (te ++ tr))).right [] |>.of_cursor cursor₂ ?_
    rw [hc₂, Compiler.hasMade, Compiler.wrote_isSealed]
    exact reading₁.ready.unsealed
  have closed₂ : (c₂.emitted (te ++ tr).length []).Closed := by
    exact closed.of_cursor (c.emitted_cursor _ _ cursor₂ (List.length_append ..))
  have ended₂ := ends.read reading₂.ahead (ended.of_cursor cursor₂) reading₂.ready.last closed₂
  have read := statementWith_of reading.ahead (starts.other (by decide)) noted reading₁.ahead made ended₂
  have turned := reads reading.ahead (starts.other (by decide)) read
  -- the other statements are read by a compiler that knows the names of the first one
  have spelling : c₂.spelling = c.spelling := by
    rw [hc₂, hc₁]
    rfl
  have inside₂ : c₂.Inside (names ++ first.names c.spelling) inLoop level := by
    subst hc₂ hc₁
    exact ((inside₁.declaring _).atLine _).wrote _ _
  have proper₂ : rest.Proper c₂.spelling (names ++ first.names c.spelling) inLoop := by
    rw [spelling]
    exact proper.2
  have fewer : tr.length ≤ left := by
    simp only [List.length_append, List.length_cons] at enough
    omega
  obtain ⟨left', le, all⟩ := others (reading₂.right []) (inside₂.emitted _ _) proper₂
    (by rw [Compiler.emitted_emitted, ← List.length_append]; exact closed₂) reads fewer
  refine ⟨left', ?_, (while_again turned left).trans (all.trans ?_)⟩
  · simp only [List.length_append, List.length_cons]
    omega
  · congr 1
    rw [Compiler.emitted_hasMade, hc₂, hc₁, Compiler.hasMade_next, List.length_append,
      List.length_append]

end StackScript
