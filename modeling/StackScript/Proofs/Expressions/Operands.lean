import StackScript.Proofs.Expressions.Parsing

/-!
# Reading operands and choices

Literals, names, signs, parentheses, arrays and choices are read as the trees that they are
writings of.

Main statement: `Written.parses`. Tokens that are a writing of an expression are read as it.
-/
namespace StackScript

open CompileM

namespace Compiler

/-- A compiler that allows struct literals or not. -/
def withoutLiterals (c : Compiler) (without : Bool) : Compiler :=
  { c with noStructLiteral := without }

end Compiler

variable {package : String → String → Option String → CompileM CodeRef} {depth : Nat}
variable {c c' : Compiler} {t : Token} {ts us : List Token} {rules : Nested}

theorem Reading.withoutLiterals (h : Reading package depth c ts) (without : Bool) :
    Reading package depth (c.withoutLiterals without) ts :=
  ⟨⟨h.ready.unsealed, h.ready.last, h.ready.noType⟩, h.ahead, h.deep⟩

/-- A step with literals allowed or not is one of the compiler that allows them or not. -/
theorem withLiterals_of {α : Type} {without : Bool} {step : CompileM α} {a : α} {n : Nat}
    {is : List Instruction}
    (h : step (c.withoutLiterals without) = (.ok a, (c.emitted n is).withoutLiterals without)) :
    withLiterals without step c = (.ok a, c.emitted n is) := by
  refine (bind_of_ok (get_eq c)).trans ?_
  have set : (modify fun c => { c with noStructLiteral := without } : CompileM Unit) c =
      (.ok (), c.withoutLiterals without) := rfl
  exact (bind_of_ok set).trans (bind_of_ok h)

/-! ## Signs -/

theorem isAnyNext_of (h : c.Ahead (t :: ts)) (texts : List String) :
    isAnyNext texts c = (.ok (texts.any t.is), c) := by
  have : c.cursor.isNext = t.is := funext h.isNext
  rw [← this]
  rfl

/-- Words that start an operand with a sign, a receive or an address. -/
def signs : List String := ["-", "!", "<-", "&", "*", "+"]

theorem unsigned_of_word {start : String} (word : t.word = mark start) (other : start ∉ signs) :
    ∀ text ∈ signs, t.is text = false := by
  intro text mem
  refine Token.is_other (Token.is_of_word word) ?_
  rintro rfl
  exact other mem

/-- An operand that no sign starts is a primary when no access follows. -/
theorem unaryWith_primary (ahead : c.Ahead (t :: ts)) (unsigned : ∀ text ∈ signs, t.is text = false)
    (read : primary rules c = (.ok (), c'))
    (stops : ∀ text ∈ Precedence.accesses, c'.cursor.isNext text = false) :
    unaryWith rules c = (.ok (), c') := by
  have any (texts : List String) (all : ∀ text ∈ texts, text ∈ signs) :
      texts.any t.is = false := by
    rw [List.any_eq_false]
    intro text mem
    simp [unsigned text (all text mem)]
  have receive : c.cursor.isNext "<-" = false := by
    rw [ahead.isNext]
    exact unsigned "<-" (by decide)
  refine (bind_of_ok (isAnyNext_of ahead _)).trans ?_
  rw [any _ (by decide), if_neg (by simp)]
  refine (bind_of_ok (accept_other receive)).trans ?_
  rw [if_neg (by simp)]
  refine (bind_of_ok (isAnyNext_of ahead _)).trans ?_
  rw [any _ (by decide), if_neg (by simp)]
  refine (bind_of_ok read).trans (repeatWhile_done ?_)
  have none (text : String) (mem : text ∈ Precedence.accesses) :
      isNext text c' = (.ok false, c') := by
    rw [← stops text mem]
    rfl
  have last : isAnyNext [".", "->"] c' = (.ok false, c') := by
    have : c'.cursor.isAnyNext [".", "->"] = false := by
      simp [Token.Cursor.isAnyNext, stops "." (by decide), stops "->" (by decide)]
    rw [← this]
    rfl
  refine (bind_of_ok (sameLine_eq c')).trans ?_
  refine (bind_of_ok (none "[" (by decide))).trans ?_
  rw [Bool.and_false, if_neg (by simp)]
  refine (bind_of_ok (none "(" (by decide))).trans ?_
  rw [Bool.and_false, if_neg (by simp)]
  exact (bind_of_ok last).trans rfl

/-- A sign is emitted behind its operand. -/
theorem unaryWith_sign {sign : Sign} (ahead : c.Ahead (t :: ts)) (word : t.word = mark sign.word)
    (read : rules.unary (c.emitted 1 []) = (.ok (), c'))
    (unsealed : c'.draft.code.isSealed = false) :
    unaryWith rules c = (.ok (), c'.emitted 0 [⟨.negate, .none⟩]) := by
  have signed : ["-", "!"].any t.is = true := by
    have is := Token.is_of_word word
    cases sign with
    | minus => simp [show t.is "-" = true from is]
    | not => simp [show t.is "!" = true from is]
  refine (bind_of_ok (isAnyNext_of ahead _)).trans ?_
  rw [signed, if_pos rfl]
  exact (bind_of_ok (skip_of ahead)).trans ((bind_of_ok read).trans (emit_of unsealed _ _))

/-! ## Literals and names -/

theorem primary_literal {value : Value} (ready : c.Ready) (ahead : c.Ahead (t :: ts))
    (reads : Token.literal? t.tag t.spelling = some value) :
    primary rules c = (.ok (), c.emitted 1 [⟨.push, .value value⟩]) := by
  have push (v : Value) : (do moveCursor Token.Cursor.skip; emitValue v) c =
      (.ok (), c.emitted 1 [⟨.push, .value v⟩]) := by
    refine (bind_of_ok (skip_of ahead)).trans ?_
    exact emit_emitted ready.unsealed 1 [] .push (.value v)
  refine (bind_of_ok (current_of ahead)).trans ?_
  cases tag : t.tag with
  | integer | float =>
    simp only [tag, Token.literal?] at reads
    simp only [numberPrimary, reads]
    exact push value
  | string | boolean =>
    simp only [tag, Token.literal?] at reads
    cases reads
    exact push _
  | reserved =>
    simp only [tag, Token.literal?] at reads
    split at reads
    · rename_i nil
      cases reads
      simp only [nil]
      exact push _
    · cases reads
  | identifier | punctuation | endOfInput =>
    rw [tag] at reads
    cases reads

theorem identifier_of (ahead : c.Ahead (t :: ts)) (tag : t.tag = .identifier) :
    identifier c = (.ok (c.spelling t.spelling), c.emitted 1 []) := by
  refine (bind_of_ok (current_of ahead)).trans ?_
  simp only [tag]
  exact (bind_of_ok (skip_of ahead)).trans rfl

/-- A name that neither a bracket nor the braces of a struct follow is that of a variable. -/
theorem primary_name {p : Precedence} (ready : c.Ready) (ahead : c.Ahead (t :: ts))
    (tag : t.tag = .identifier) (stops : (c.emitted 1 []).Stops p) :
    primary rules c = (.ok (), c.emitted 1 [⟨.load, .name (c.spelling t.spelling)⟩]) := by
  refine (bind_of_ok (current_of ahead)).trans ?_
  simp only [tag]
  refine (bind_of_ok (identifier_of ahead tag)).trans ?_
  have noCall : isNext "(" (c.emitted 1 []) = (.ok false, c.emitted 1 []) := by
    rw [← stops.access "(" (by decide)]
    rfl
  refine (bind_of_ok noCall).trans ?_
  rw [if_neg (by simp)]
  refine (bind_of_ok (get_eq _)).trans ?_
  rw [if_neg ?_]
  · exact emit_emitted ready.unsealed 1 [] .load _
  · cases next : (c.emitted 1 []).cursor.isNext "\x7b" with
    | false => simp
    | true => rcases stops.brace next with literals | types <;> simp_all

/-! ## Parentheses and brackets -/

/-- What stands between two marks is read by the rules of the level below. -/
theorem Reading.between {first last : Token}
    (h : Reading package (depth + 1) c (first :: (ts ++ [last]))) :
    Reading package depth (c.emitted 1 []) (ts ++ [last]) := by
  have deep := h.deep
  exact (h.tail []).inner (Nat.le_of_succ_le_succ deep)

theorem primary_parentheses {first last : Token} {e : Expr}
    (reading : Reading package (depth + 1) c (first :: (ts ++ [last])))
    (opens : first.word = mark "(") (inner : Parses .choice e ts) (closes : last.word = mark ")") :
    primary (rulesTo package (depth + 1)) c =
      (.ok (), c.emitted (first :: (ts ++ [last])).length (e.code c.spelling c.here)) := by
  have is := Token.is_of_word opens
  obtain ⟨tag, -⟩ := Prod.mk.inj opens
  have between := reading.between
  have behind := between.right (e.code c.spelling c.here)
  have stops := Compiler.Stops.of_is (p := .choice) (behind.withoutLiterals false).ahead
    (Token.is_of_word closes) (by decide)
  have read : withLiterals false (rulesTo package (depth + 1)).expression (c.emitted 1 []) =
      (.ok (), (c.emitted 1 []).emitted ts.length (e.code c.spelling c.here)) :=
    withLiterals_of (inner (between.left.withoutLiterals false) stops)
  refine (bind_of_ok (current_of reading.ahead)).trans ?_
  simp only [tag, is, if_true]
  refine (bind_of_ok (skip_of reading.ahead)).trans ((bind_of_ok read).trans ?_)
  refine (expect_of behind.ahead (Token.is_of_word closes)).trans ?_
  simp [Nat.add_comm 1]

/-- A turn of the reading of parts with commas between them. -/
def listTurn (closing : String) (part : CompileM Unit) (count : Nat) :
    CompileM (Turn Nat Nat) := do
  if ← accept closing then pure (.done count)
  else
    if ← atEnd then fail (.missing closing)
    if 0 < count then
      expect ","
      if ← accept closing then return .done count
    part
    pure (.again (count + 1))

theorem listUntil_eq (closing : String) (part : CompileM Unit) :
    listUntil closing part = repeatTurns 0 (listTurn closing part) := rfl

/-- What stands before an item: nothing before the first one, a comma before the others. -/
inductive Leads : (count : Nat) → List Token → Prop where
  | first : Leads 0 []
  | comma {count : Nat} {comma : Token} (word : comma.word = mark ",") : Leads (count + 1) [comma]

/-- Reading items up to the bracket that closes them, some others having been read. -/
def ReadsItems (es : List Expr) (ts : List Token) : Prop :=
  ∀ {package : String → String → Option String → CompileM CodeRef} {depth : Nat} {c : Compiler}
    {last : Token} {lead : List Token} {count left : Nat},
    Reading package depth c (lead ++ (ts ++ [last])) → last.word = mark "]" → Leads count lead →
    (es = [] → lead = []) → es.length < left →
    turns (listTurn "]" (Precedence.choice.parse (rulesTo package depth))) left count c =
      (.ok (count + es.length), c.emitted (lead ++ (ts ++ [last])).length
        (Expr.itemsCode c.spelling c.here es))

theorem listTurn_done {closing : String} {part : CompileM Unit} {count : Nat}
    (ahead : c.Ahead (t :: ts)) (word : t.word = mark closing) :
    listTurn closing part count c = (.ok (.done count), c.emitted 1 []) :=
  (bind_of_ok (accept_of ahead (Token.is_of_word word))).trans rfl

/-- An item is read behind its comma, if there is one. -/
theorem listTurn_again {p : Precedence} {e : Expr} {lead : List Token} {count : Nat}
    (reading : Reading package depth c (lead ++ (ts ++ t :: us))) (leads : Leads count lead)
    (written : Written (.expr p e) ts) (parses : Parses .choice e ts)
    (stops : ∀ c : Compiler, c.Ahead (t :: us) → c.Stops .choice) :
    listTurn "]" (Precedence.choice.parse (rulesTo package depth)) count c =
      (.ok (.again (count + 1)), c.emitted (lead ++ ts).length (e.code c.spelling c.here)) := by
  have item := reading.right []
  have read := parses item.left (stops _ (item.right _).ahead)
  obtain ⟨first, rest, rfl, other⟩ := written.first
  have open' : (c.emitted lead.length []).cursor.isNext "]" = false := by
    rw [item.ahead.isNext]
    exact other "]" (by decide)
  cases leads with
  | first =>
    have atEnd : atEnd c = (.ok false, c) := by
      rw [← item.ahead.atEnd]
      rfl
    refine (bind_of_ok (accept_other open')).trans ?_
    rw [if_neg (by simp)]
    refine (bind_of_ok atEnd).trans ?_
    rw [if_neg (by simp), if_neg (by simp)]
    exact (bind_of_ok read).trans rfl
  | @comma count comma word =>
    have is := Token.is_of_word word
    have closed : c.cursor.isNext "]" = false := by
      rw [reading.ahead.isNext]
      exact Token.is_other is (by decide)
    have atEnd : atEnd c = (.ok false, c) := by
      rw [← reading.ahead.atEnd]
      rfl
    refine (bind_of_ok (accept_other closed)).trans ?_
    rw [if_neg (by simp)]
    refine (bind_of_ok atEnd).trans ?_
    rw [if_neg (by simp), if_pos (Nat.succ_pos _)]
    refine (bind_of_ok (expect_of reading.ahead is)).trans ?_
    refine (bind_of_ok (accept_other open')).trans ?_
    rw [if_neg (by simp)]
    refine (bind_of_ok read).trans ?_
    simp only [Compiler.hasRead, Compiler.emitted_emitted, List.nil_append, List.length_append]
    rfl

theorem ReadsItems.none : ReadsItems [] [] := by
  intro package depth c last lead count left reading closes leads no enough
  obtain ⟨left, rfl⟩ : ∃ l, left = l + 1 := ⟨left - 1, by simp at enough; omega⟩
  cases no rfl
  exact turns_done (listTurn_done reading.ahead closes) left

theorem ReadsItems.last {p : Precedence} {e : Expr} (written : Written (.expr p e) ts)
    (parses : Parses .choice e ts) : ReadsItems [e] ts := by
  intro package depth c last lead count left reading closes leads _ enough
  obtain ⟨left, rfl⟩ : ∃ l, left = l + 2 := ⟨left - 2, by simp at enough; omega⟩
  have turned := listTurn_again reading leads written parses
    fun _ ahead => .of_is ahead (Token.is_of_word closes) (by decide)
  rw [← List.append_assoc] at reading ⊢
  have behind := reading.right (e.code c.spelling c.here)
  refine (turns_again turned _).trans ((turns_done (listTurn_done behind.ahead closes) left).trans ?_)
  simp [Expr.itemsCode, Nat.add_assoc]

theorem ReadsItems.more {p : Precedence} {e : Expr} {es : List Expr} {comma : Token}
    (written : Written (.expr p e) ts) (parses : Parses .choice e ts)
    (word : comma.word = mark ",") (rest : ReadsItems es us) (some : es ≠ []) :
    ReadsItems (e :: es) (ts ++ comma :: us) := by
  intro package depth c last lead count left reading closes leads _ enough
  obtain ⟨left, rfl⟩ : ∃ l, left = l + 1 := ⟨left - 1, by simp at enough; omega⟩
  rw [List.append_assoc, List.cons_append] at reading ⊢
  have turned := listTurn_again reading leads written parses
    fun _ ahead => .of_is ahead (Token.is_of_word word) (by decide)
  rw [← List.append_assoc] at reading ⊢
  have behind := reading.right (e.code c.spelling c.here)
  have others := rest behind closes (@Leads.comma count comma word) (fun h => absurd h some)
    (Nat.lt_of_succ_lt_succ enough)
  refine (turns_again turned _).trans (others.trans ?_)
  simp [Expr.itemsCode, Nat.add_assoc, Nat.add_comm 1]

/-- The words that start the type of the items behind an empty pair of brackets. -/
def itemTypes : List String := ["[", "*", "map", "chan", "interface", "struct", "func"]

theorem startsArrayType_eq (c : Compiler) :
    startsArrayType c = (.ok ((c.cursor.peek 2).is "]" &&
      (c.cursor.peek 3).line == (c.cursor.peek 2).line &&
      ((c.cursor.peek 3).isIdentifier || itemTypes.any (c.cursor.peek 3).is)), c) := rfl

theorem itemTypes_none (identifier : t.isIdentifier = false)
    (other : ∀ text ∈ itemTypes, t.is text = false) :
    (t.isIdentifier || itemTypes.any t.is) = false := by
  rw [identifier, Bool.false_or, List.any_eq_false]
  intro text mem
  simp [other text mem]

/-- Brackets around items, or around nothing when no type follows, start an array. -/
theorem startsArrayType_none {p : Precedence} {first last : Token} {items : List Expr}
    (reading : Reading package depth c (first :: (ts ++ [last]))) (opens : first.word = mark "[")
    (parts : Written (.items items) ts) (closes : last.word = mark "]")
    (stops : (c.emitted (first :: (ts ++ [last])).length []).Stops p) :
    startsArrayType c = (.ok false, c) := by
  have inner := reading.tail []
  have second : c.cursor.peek 2 = (c.emitted 1 []).cursor.current := rfl
  have third : c.cursor.peek 3 = (c.emitted 2 []).cursor.current := rfl
  rw [startsArrayType_eq]
  cases parts with
  | last h | more h =>
    obtain ⟨t, rest, rfl, other⟩ := h.first
    rw [second, inner.ahead.current, other "]" (by decide)]
    rfl
  | none =>
    have previous : (c.emitted 2 []).cursor.previous = last :=
      (c.previous_emitted 1 [] []).trans inner.ahead.current
    rw [second, inner.ahead.current, third]
    have noType : ((c.emitted 2 []).cursor.current.line == last.line) = true →
        ((c.emitted 2 []).cursor.current.isIdentifier ||
          itemTypes.any (c.emitted 2 []).cursor.current.is) = false := by
      intro same
      cases atEnd : (c.emitted 2 []).cursor.atEnd with
      | true =>
        have tag := reading.ready.last
        rw [Compiler.current_atEnd atEnd, Compiler.emitted_last]
        exact itemTypes_none (by simp [Token.isIdentifier, tag]) (by simp [Token.is, tag])
      | false =>
        have onLine : (c.emitted 2 []).sameLine = true := by
          simp [Compiler.sameLine, atEnd, previous, same]
        refine itemTypes_none (stops.identifier onLine) fun text mem => ?_
        rcases List.mem_cons.1 mem with rfl | mem
        · exact stops.access "[" (by decide)
        · rcases List.mem_cons.1 mem with rfl | mem
          · have here := (c.emitted 2 []).current_of_not_atEnd atEnd
            refine Bool.eq_false_iff.2 fun star => ?_
            refine reading.ready.noType ⟨c.cursor.pos, first, last, _, ?_, ?_, ?_,
              Token.is_of_word opens, Token.is_of_word closes, star, eq_of_beq same⟩
            · exact (Array.getElem?_toList ..).trans reading.ahead.head
            · exact (Array.getElem?_toList ..).trans inner.ahead.head
            · exact (Array.getElem?_toList ..).trans here
          · exact stops.type onLine text mem
    cases same : (c.emitted 2 []).cursor.current.line == last.line with
    | false => rw [Bool.and_false, Bool.false_and]
    | true => rw [noType same, Bool.and_false]

theorem primary_array {p : Precedence} {first last : Token} {items : List Expr}
    (reading : Reading package (depth + 1) c (first :: (ts ++ [last])))
    (opens : first.word = mark "[") (parts : Written (.items items) ts)
    (reads : ReadsItems items ts) (closes : last.word = mark "]")
    (stops : (c.emitted (first :: (ts ++ [last])).length []).Stops p) :
    primary (rulesTo package (depth + 1)) c = (.ok (), c.emitted (first :: (ts ++ [last])).length
      ((Expr.array items).code c.spelling c.here)) := by
  have is := Token.is_of_word opens
  obtain ⟨tag, -⟩ := Prod.mk.inj opens
  have between := reading.between
  have list : withLiterals false (listUntil "]" (rulesTo package (depth + 1)).expression)
      (c.emitted 1 []) = (.ok items.length, (c.emitted 1 []).emitted (ts ++ [last]).length
        (Expr.itemsCode c.spelling c.here items)) := by
    refine withLiterals_of ?_
    rw [listUntil_eq, repeatTurns_eq]
    have enough : items.length < c.cursor.tokens.size - (c.cursor.pos + 1) + 2 := by
      have counted := parts.items_length
      have bound := between.ahead.bound
      rw [List.length_append, Compiler.emitted_tokens, Compiler.emitted_pos] at bound
      omega
    have read := reads (between.withoutLiterals false) closes .first (fun _ => rfl) enough
    rw [Nat.zero_add] at read
    exact read
  refine (bind_of_ok (current_of reading.ahead)).trans ?_
  simp only [tag, Token.is_other is (show "[" ≠ "(" by decide), is, if_true]
  refine (bind_of_ok (startsArrayType_none reading opens parts closes stops)).trans ?_
  refine (bind_of_ok ((bind_of_ok (expect_of reading.ahead is)).trans list)).trans ?_
  have unsealed := (between.ready.emitted (ts ++ [last]).length
    (Expr.itemsCode c.spelling c.here items)).unsealed
  refine (emit_of unsealed .array _).trans ?_
  simp [Expr.code, Nat.add_comm 1]

/-! ## Choices -/

/-- A disjunction is an expression when no question follows. -/
theorem Parses.choice_of_or {e : Expr} (h : Parses .or e ts) : Parses .choice e ts := by
  intro package depth c reading stops
  have read := h reading (stops.tighter (Nat.zero_le _))
  refine (bind_of_ok read).trans ((bind_of_ok (sameLine_eq _)).trans ?_)
  have next : isNext "?" (c.hasRead ts e) =
      (.ok ((c.hasRead ts e).cursor.isNext "?"), c.hasRead ts e) := rfl
  refine (bind_of_ok next).trans ?_
  rw [if_neg ?_]
  · rfl
  · rw [Bool.and_eq_true]
    rintro ⟨same, question⟩
    rw [stops.choice same rfl] at question
    cases question

/-- A choice is read part by part, the branches patched when their targets are known. -/
theorem Parses.choice {asks parts : Token} {e a b : Expr} {te ta tb : List Token}
    (condition : Parses .or e te) (some : te ≠ []) (question : asks.word = mark "?")
    (follows : Token.Follows te asks) (yes : Parses .choice a ta) (colon : parts.word = mark ":")
    (no : Parses .choice b tb) :
    Parses .choice (.choice e a b) (te ++ asks :: ta ++ parts :: tb) := by
  intro package depth c reading stops
  rw [List.append_assoc, List.cons_append] at reading
  obtain ⟨depth, rfl⟩ : ∃ below, depth = below + 1 := by
    obtain ⟨t, rest, rfl⟩ := List.exists_cons_of_ne_nil some
    exact reading.level
  have fixups := @emitFixup_emitted c reading.ready.unsealed
  obtain ⟨test, htest⟩ : ∃ is, is = e.code c.spelling c.here := ⟨_, rfl⟩
  obtain ⟨first, hfirst⟩ : ∃ is, is = a.code c.spelling (c.here + test.length + 1) := ⟨_, rfl⟩
  obtain ⟨second, hsecond⟩ : ∃ is, is =
    b.code c.spelling (c.here + test.length + first.length + 2) := ⟨_, rfl⟩
  let ask : Instruction := ⟨.branchFalse, .address 0⟩
  let asked : Instruction := branchOn false (c.here + test.length + first.length + 2)
  let leave : Instruction := ⟨.branch, .address 0⟩
  -- the condition
  have behind := reading.right test
  have tested := condition reading.left (.of_is behind.ahead (Token.is_of_word question) (by decide))
  rw [Compiler.hasRead, ← htest] at tested
  have same := reading.ahead.sameLine some follows test
  have next := isNext_of behind.ahead "?"
  rw [Token.is_of_word question] at next
  -- the arms
  have arm := (behind.tail [ask]).inner (by
    have := behind.deep
    simpa using this)
  have parted := arm.right first
  have other := parted.tail []
  simp only [Compiler.emitted_emitted, List.append_assoc, List.cons_append, List.nil_append]
    at arm parted other
  have chosen := yes.behind arm.left (.of_is parted.ahead (Token.is_of_word colon) (by decide))
  rw [List.length_append, List.length_singleton, ← Nat.add_assoc, ← hfirst, List.append_assoc,
    List.singleton_append] at chosen
  have passed := no.behind (other.emitting (test ++ asked :: (first ++ [leave])))
  -- the branches
  have otherwise : patchHere (c.here + test.length)
      (c.emitted (te.length + 1 + ta.length + 1) (test ++ ask :: (first ++ [leave]))) =
      (.ok (), c.emitted (te.length + 1 + ta.length + 1) (test ++ asked :: (first ++ [leave]))) :=
    patchHere_emitted _ test ask _ rfl (by simp; omega)
  have finish : patchHere (c.here + test.length + first.length + 1)
      (c.emitted (te.length + 1 + ta.length + 1 + tb.length)
        (test ++ asked :: (first ++ leave :: second))) =
      (.ok (), c.emitted (te.length + 1 + ta.length + 1 + tb.length)
        (test ++ choiceCode (c.here + test.length) first second)) := by
    have start : c.here + test.length + first.length + 1 =
        c.here + (test ++ asked :: first).length := by
      simp [Nat.add_assoc]
    have stop : c.here + test.length + first.length + 2 + second.length =
        c.here + (test ++ asked :: first).length + 1 + second.length := by
      rw [← start]
    have patched := patchHere_emitted (te.length + 1 + ta.length + 1 + tb.length)
      (test ++ asked :: first) leave second start stop
    rw [List.append_assoc, List.cons_append, List.append_assoc, List.cons_append] at patched
    exact patched
  have length : (te ++ asks :: ta ++ parts :: tb).length =
      te.length + 1 + ta.length + 1 + tb.length := by
    simp only [List.length_append, List.length_cons]
    omega
  have done : c.hasRead (te ++ asks :: ta ++ parts :: tb) (.choice e a b) =
      c.emitted (te.length + 1 + ta.length + 1 + tb.length)
        (test ++ choiceCode (c.here + test.length) first second) := by
    rw [Compiler.hasRead, length, htest, hfirst, hsecond, hfirst, htest]
    rfl
  rw [done] at stops ⊢
  refine (bind_of_ok tested).trans ((bind_of_ok (sameLine_eq _)).trans ?_)
  refine (bind_of_ok next).trans ?_
  rw [same]
  refine (bind_of_ok (skip_of behind.ahead)).trans ?_
  rw [Compiler.emitted_emitted, List.append_nil]
  refine (bind_of_ok (fixups _ _ _)).trans ((bind_of_ok chosen).trans ?_)
  refine (bind_of_ok (expect_of parted.ahead (Token.is_of_word colon))).trans ?_
  rw [Compiler.emitted_emitted, List.append_nil]
  refine (bind_of_ok (fixups _ _ _)).trans ?_
  rw [List.append_assoc, List.cons_append]
  refine (bind_of_ok otherwise).trans ((bind_of_ok (passed stops.emitted)).trans ?_)
  have last : c.here + (test ++ asked :: (first ++ [leave])).length =
      c.here + test.length + first.length + 2 := by
    simp only [List.length_append, List.length_cons, List.length_nil]
    omega
  rw [last, ← hsecond, List.append_assoc, List.cons_append, List.append_assoc]
  have fixup : c.here + (test ++ ask :: first).length =
      c.here + test.length + first.length + 1 := by
    simp [Nat.add_assoc]
  rw [fixup]
  exact finish

/-! ## Phrases -/

/-- What the writing of a phrase means for the steps that read it. -/
def Phrase.IsRead : Phrase → List Token → Prop
  | .expr p e, ts => Reads p e ts
  | .items es, ts => ReadsItems es ts

theorem Written.isRead {q : Phrase} (h : Written q ts) : q.IsRead ts := by
  induction h with
  | @literal t l tag spelling =>
    intro package depth c reading stops
    refine unaryWith_primary reading.ahead (fun text mem => ?_)
      (primary_literal reading.ready reading.ahead (tag ▸ spelling ▸ l.reads)) stops.access
    refine l.is_other tag spelling ?_
    rintro rfl
    exact absurd mem (by decide)
  | @name t tag =>
    intro package depth c reading stops
    exact unaryWith_primary reading.ahead (fun text _ => by simp [Token.is, tag])
      (primary_name reading.ready reading.ahead tag stops.emitted) stops.access
  | @array first last items ts opens parts closes ih =>
    intro package depth c reading stops
    rw [List.cons_append] at reading stops ⊢
    obtain ⟨depth, rfl⟩ := reading.level
    exact unaryWith_primary reading.ahead (unsigned_of_word opens (by decide))
      (primary_array reading opens parts ih closes stops.emitted) stops.access
  | @parentheses first last e ts opens inner closes ih =>
    intro package depth c reading stops
    rw [List.cons_append] at reading stops ⊢
    obtain ⟨depth, rfl⟩ := reading.level
    exact unaryWith_primary reading.ahead (unsigned_of_word opens (by decide))
      (primary_parentheses reading opens ih.parses closes) stops.access
  | @unary t sign e ts word operand ih =>
    intro package depth c reading stops
    obtain ⟨depth, rfl⟩ := reading.level
    have inner := (reading.tail []).inner (Nat.le_of_succ_le_succ reading.deep)
    have operand : Parses .unary e ts := ih.parses
    rw [Compiler.hasRead, List.length_cons, Nat.add_comm ts.length] at stops ⊢
    have read := operand.behind inner stops.emitted
    have unsealed := (reading.ready.emitted (1 + ts.length) (e.code c.spelling c.here)).unsealed
    refine (unaryWith_sign reading.ahead word read unsealed).trans ?_
    rw [Compiler.emitted_emitted]
    rfl
  | binary op left word follows right ihLeft ihRight =>
    have chain := op.precedence_isChain
    exact Starts.reads chain
      (Starts.binary (Reads.starts chain ihLeft) left.ne_nil word follows ihRight.parses)
  | choice condition asks follows yes parts no ihCondition ihYes ihNo =>
    exact Parses.choice ihCondition.parses condition.ne_nil asks follows ihYes.parses parts ihNo.parses
  | @tighter p e ts h ih =>
    cases p with
    | choice => exact Parses.choice_of_or ih.parses
    | unary => exact ih
    | _ => exact Starts.reads rfl (Parses.starts rfl ih.parses)
  | none => exact ReadsItems.none
  | last h ih => exact ReadsItems.last h ih.parses
  | more first comma rest some ihFirst ihRest =>
    exact ReadsItems.more first ihFirst.parses comma ihRest some

/-- Tokens that are a writing of an expression are read as it. -/
theorem Written.parses {p : Precedence} {e : Expr} (h : Written (.expr p e) ts) : Parses p e ts :=
  Reads.parses h.isRead

end StackScript
