import StackScript.Fault
import StackScript.Decimal.Read

/-!
# Templates

Text with actions between double braces: a value to write, a choice, or a loop over the elements
of a value. This module holds the tree that a template's text stands for, and
reads it.

Main statements: the type of `parseNodes`, whose result never holds more pieces than it was
given, so that blocks of any depth are read in the end.
-/
namespace StackScript

/-- What an action computes from the data at hand. -/
inductive Template.Expr where
  /-- The data itself. -/
  | here
  /-- Fields of fields of the data. -/
  | path (names : List String)
  | string (text : String)
  | int (n : Int64)
  | not (inner : Expr)
deriving Repr, DecidableEq

/-- A part of a template. -/
inductive Template.Node where
  | literal (text : String)
  | output (value : Template.Expr)
  | choice (condition : Template.Expr) (body : List Node) (otherwise : Option (List Node))
  /-- The body once for each element, which is the data inside it. -/
  | range (elements : Template.Expr) (body : List Node)
deriving Repr

/-- A named template. -/
structure Template where
  name : String
  nodes : List Template.Node
deriving Repr

/-- The text of a template as a value. -/
def Template.display (t : Template) : String := "template " ++ t.name

end StackScript

/-!
## Reading templates

The text is first cut into literals and actions: an action runs from a pair of opening braces to
the next pair of closing ones. Blocks are then matched: every `if` and `range` is closed by its
own `end`, and an `else` belongs to the innermost open `if`.
-/
namespace StackScript.Template

/-- Literal text or the trimmed text of an action. -/
inductive Piece where
  | literal (text : String)
  | action (text : String)
deriving Repr, DecidableEq

/-- A malformed template. -/
def malformed (detail : String) : Fault := .about .invalidTemplate detail

/-- The text before the first occurrence of two equal characters, and the text after them. -/
def breakAt (mark : Char) : List Char → Option (List Char × List Char)
  | [] => none
  | [_] => none
  | a :: b :: rest =>
    if a = mark ∧ b = mark then some ([], rest)
    else (breakAt mark (b :: rest)).map fun (before, after) => (a :: before, after)

theorem breakAt_length {mark : Char} {text before after : List Char}
    (h : breakAt mark text = some (before, after)) : after.length < text.length := by
  induction text generalizing before with
  | nil => simp [breakAt] at h
  | cons a tail ih =>
    cases tail with
    | nil => simp [breakAt] at h
    | cons b rest =>
      simp only [breakAt] at h
      split at h
      · simp only [Option.some.injEq, Prod.mk.injEq] at h
        obtain ⟨-, rfl⟩ := h
        simp +arith
      · cases hb : breakAt mark (b :: rest) with
        | none => simp [hb] at h
        | some p =>
          obtain ⟨x, y⟩ := p
          simp only [hb, Option.map_some, Option.some.injEq, Prod.mk.injEq] at h
          obtain ⟨-, rfl⟩ := h
          have := ih hb
          simp only [List.length_cons] at this ⊢
          omega

/-- A literal, unless it is empty. -/
def literalPiece (text : List Char) : List Piece :=
  if text.isEmpty then [] else [.literal (String.ofList text)]

/-- Cut a text into literals and actions. -/
def pieces (text : List Char) : Except Fault (List Piece) :=
  match ho : breakAt '\x7b' text with
  | none => .ok (literalPiece text)
  | some (before, rest) =>
    match hc : breakAt '\x7d' rest with
    | none => .error (malformed "unclosed action")
    | some (action, after) =>
      have : after.length < text.length :=
        Nat.lt_trans (breakAt_length hc) (breakAt_length ho)
      match pieces after with
      | .error f => .error f
      | .ok more =>
        .ok (literalPiece before ++ .action (Text.trim (String.ofList action)) :: more)
termination_by text.length

/-- The text after `front`, if it starts with it. -/
def after? (front text : List Char) : Option (List Char) :=
  if front.isPrefixOf text then some (text.drop front.length) else none

/-- The parts of a text between points. -/
def splitPoints : List Char → List (List Char)
  | [] => [[]]
  | c :: rest =>
    if c = '.' then [] :: splitPoints rest
    else
      match splitPoints rest with
      | part :: parts => (c :: part) :: parts
      | [] => [[c]]

/-- The expression of an action that starts with no blank and no `not`. -/
def readOperand (text : List Char) : Except Fault Expr :=
  if text = ['.'] then .ok .here
  else
    match text with
    | '.' :: path =>
      let parts := splitPoints path
      if parts.any List.isEmpty then .error (malformed (String.ofList text))
      else .ok (.path (parts.map String.ofList))
    | _ =>
      if 2 ≤ text.length ∧ text.head? = some '"' ∧ text.getLast? = some '"' then
        .ok (.string (String.ofList (text.drop 1).dropLast))
      else
        match Decimal.readInt64 (String.ofList text) with
        | some n => .ok (.int n)
        | none => .error (malformed (String.ofList text))

/-- Blanks dropped from both ends. -/
def trimmed (text : List Char) : List Char :=
  ((text.dropWhile Text.isBlank).reverse.dropWhile Text.isBlank).reverse

theorem trimmed_length (text : List Char) : (trimmed text).length ≤ text.length := by
  have h1 := (List.dropWhile_sublist Text.isBlank (l := text)).length_le
  have h2 :=
    (List.dropWhile_sublist Text.isBlank (l := (text.dropWhile Text.isBlank).reverse)).length_le
  simp only [List.length_reverse] at h2
  simp only [trimmed, List.length_reverse]
  omega

/-- Read the expression of an action. -/
def readExpr (text : List Char) : Except Fault Expr :=
  match h : after? ['n', 'o', 't', ' '] (trimmed text) with
  | some inner =>
    have : inner.length < text.length := by
      have := trimmed_length text
      simp only [after?] at h
      split at h
      · rename_i hp
        have hl := (List.isPrefixOf_iff_prefix.1 hp).length_le
        simp only [Option.some.injEq] at h
        subst h
        simp only [List.length_drop, List.length_cons, List.length_nil] at *
        omega
      · simp at h
    (readExpr inner).map .not
  | none => readOperand (trimmed text)
termination_by text.length

/-- Nodes read from pieces, the word that ended them, and the pieces left. -/
structure Parsed (given : List Piece) where
  nodes : List Node
  terminator : Option String
  rest : List Piece
  rest_le : rest.length ≤ given.length

/-- The fault of a block without an end. -/
def missingEnd : Fault := malformed "missing \x7b\x7bend\x7d\x7d"

/-- Read nodes up to an `end`, an `else` or the end of the pieces. -/
def parseNodes (given : List Piece) : Except Fault (Parsed given) :=
  match given with
  | [] => .ok ⟨[], none, [], Nat.le_refl _⟩
  | .literal text :: tail =>
    match parseNodes tail with
    | .error f => .error f
    | .ok p => .ok ⟨.literal text :: p.nodes, p.terminator, p.rest, Nat.le_succ_of_le p.rest_le⟩
  | .action text :: tail =>
    if text = "end" ∨ text = "else" then .ok ⟨[], some text, tail, Nat.le_succ _⟩
    else
      match after? ['i', 'f', ' '] text.toList with
      | some condition =>
        match readExpr condition with
        | .error f => .error f
        | .ok condition =>
          match parseNodes tail with
          | .error f => .error f
          | .ok body =>
            have hb := body.rest_le
            if body.terminator = some "else" then
              match parseNodes body.rest with
              | .error f => .error f
              | .ok other =>
                have ho := other.rest_le
                if other.terminator = some "end" then
                  match parseNodes other.rest with
                  | .error f => .error f
                  | .ok more =>
                    .ok ⟨.choice condition body.nodes (some other.nodes) :: more.nodes,
                      more.terminator, more.rest,
                      Nat.le_succ_of_le (Nat.le_trans more.rest_le (Nat.le_trans ho hb))⟩
                else .error missingEnd
            else if body.terminator = some "end" then
              match parseNodes body.rest with
              | .error f => .error f
              | .ok more =>
                .ok ⟨.choice condition body.nodes none :: more.nodes, more.terminator, more.rest,
                  Nat.le_succ_of_le (Nat.le_trans more.rest_le hb)⟩
            else .error missingEnd
      | none =>
        match after? ['r', 'a', 'n', 'g', 'e', ' '] text.toList with
        | some elements =>
          match readExpr elements with
          | .error f => .error f
          | .ok elements =>
            match parseNodes tail with
            | .error f => .error f
            | .ok body =>
              have hb := body.rest_le
              if body.terminator = some "end" then
                match parseNodes body.rest with
                | .error f => .error f
                | .ok more =>
                  .ok ⟨.range elements body.nodes :: more.nodes, more.terminator, more.rest,
                    Nat.le_succ_of_le (Nat.le_trans more.rest_le hb)⟩
              else .error missingEnd
        | none =>
          match readExpr text.toList with
          | .error f => .error f
          | .ok value =>
            match parseNodes tail with
            | .error f => .error f
            | .ok more =>
              .ok ⟨.output value :: more.nodes, more.terminator, more.rest,
                Nat.le_succ_of_le more.rest_le⟩
termination_by given.length
decreasing_by all_goals (simp only [List.length_cons]; omega)

/-- Read a whole template: no `end` or `else` may be left over. -/
def parse (source : String) : Except Fault (List Node) :=
  match pieces source.toList with
  | .error f => .error f
  | .ok given =>
    match parseNodes given with
    | .error f => .error f
    | .ok p =>
      match p.terminator with
      | none => .ok p.nodes
      | some word => .error (malformed ("unexpected \x7b\x7b" ++ word ++ "\x7d\x7d"))

/-- A named template from its text. -/
def ofSource (name source : String) : Except Fault Template :=
  (parse source).map fun nodes => ⟨name, nodes⟩

end StackScript.Template
