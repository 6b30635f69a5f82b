import Mathlib.Data.List.Forall2
import StackScript.Template

/-!
# Blocks of templates

The tree of a template is read off its parts in order: what stands outside the actions, and what the
actions do. The parts of a tree are nested: every `if` and `range` is closed by its own `end`, and
an `else` stands in an `if`, at most once. Reading pieces as a tree is reading each of them as the
part that it is.

Main statements: `parse_iff` and `nested_iff` (the parts that nest are those of trees).
-/
namespace StackScript.Template

/-! ## Parts -/

/-- What a piece of a template stands for. -/
inductive Part where
  | literal (text : String)
  | output (value : Expr)
  /-- The start of a choice. -/
  | choice (condition : Expr)
  /-- The start of a loop. -/
  | range (elements : Expr)
  /-- What divides a choice. -/
  | otherwise
  /-- The end of a choice or loop. -/
  | finish
deriving Repr, DecidableEq

/-- The parts of a tree, in the order of the text. -/
def parts : List Node → List Part
  | [] => []
  | .literal text :: rest => .literal text :: parts rest
  | .output value :: rest => .output value :: parts rest
  | .choice condition body none :: rest =>
    .choice condition :: (parts body ++ .finish :: parts rest)
  | .choice condition body (some other) :: rest =>
    .choice condition :: (parts body ++ .otherwise :: (parts other ++ .finish :: parts rest))
  | .range elements body :: rest => .range elements :: (parts body ++ .finish :: parts rest)

/-- What an action does. -/
def actionPart (text : String) : Except Fault Part :=
  if text = "end" then .ok .finish
  else if text = "else" then .ok .otherwise
  else
    match after? ['i', 'f', ' '] text.toList with
    | some condition => (readExpr condition).map .choice
    | none =>
      match after? ['r', 'a', 'n', 'g', 'e', ' '] text.toList with
      | some elements => (readExpr elements).map .range
      | none => (readExpr text.toList).map .output

/-- The part that a piece stands for. -/
def Piece.part : Piece → Except Fault Part
  | .literal text => .ok (.literal text)
  | .action text => actionPart text

/-- The pieces of a text and what they stand for, one by one. -/
def Stands (given : List Piece) (ps : List Part) : Prop :=
  List.Forall₂ (fun piece p => piece.part = .ok p) given ps

/-- Whether an action stands for a part. -/
def Part.isAction : Part → Bool
  | .literal _ => false
  | _ => true

/-- The word that ends nodes. -/
def Part.word? : Part → Option String
  | .finish => some "end"
  | .otherwise => some "else"
  | _ => none

variable {text word : String} {p : Part} {e : Expr} {given given' tail rest : List Piece}
  {nodes body other more : List Node} {ending : Option String} {ps : List Part}

theorem map_eq_ok {α β : Type} {f : α → β} {r : Except Fault α} {b : β} :
    r.map f = .ok b ↔ ∃ a, r = .ok a ∧ f a = b := by
  cases r <;> simp [Except.map]

/-- What ends nodes is known by its word. -/
theorem actionPart_word (known : p.word? = some word) : actionPart text = .ok p ↔ text = word := by
  cases p with
  | finish =>
    cases known
    constructor
    · unfold actionPart
      grind [map_eq_ok]
    · rintro rfl
      rfl
  | otherwise =>
    cases known
    constructor
    · unfold actionPart
      grind [map_eq_ok]
    · rintro rfl
      rfl
  | _ => cases known

theorem part_literal {piece : Piece} (h : piece.part = .ok (.literal text)) :
    piece = .literal text := by
  cases piece with
  | literal other =>
    cases h
    rfl
  | action other =>
    simp only [Piece.part, actionPart] at h
    grind [map_eq_ok]

theorem part_action {piece : Piece} (h : piece.part = .ok p) (action : p.isAction) :
    ∃ text, piece = .action text ∧ actionPart text = .ok p := by
  cases piece with
  | literal text =>
    cases h
    cases action
  | action text => exact ⟨text, rfl, h⟩

theorem Stands.append {behind : List Piece} {qs : List Part} (first : Stands given ps)
    (second : Stands behind qs) : Stands (given ++ behind) (ps ++ qs) :=
  List.rel_append first second

theorem Stands.append_iff {ps qs : List Part} : Stands given (ps ++ qs) ↔
    ∃ front behind, given = front ++ behind ∧ Stands front ps ∧ Stands behind qs := by
  constructor
  · intro h
    exact ⟨_, _, (List.take_append_drop ps.length given).symm, List.forall₂_take_append _ _ _ h,
      List.forall₂_drop_append _ _ _ h⟩
  · rintro ⟨front, behind, rfl, first, second⟩
    exact first.append second

/-- An action and what stands behind it. -/
theorem Stands.cons_action (action : p.isAction) : Stands given (p :: ps) ↔
    ∃ text behind, given = .action text :: behind ∧ actionPart text = .ok p ∧ Stands behind ps := by
  constructor
  · intro h
    obtain ⟨piece, behind, stands, more, rfl⟩ := List.forall₂_cons_right_iff.1 h
    obtain ⟨text, rfl, known⟩ := part_action stands action
    exact ⟨text, behind, rfl, known, more⟩
  · rintro ⟨text, behind, rfl, known, more⟩
    exact .cons known more

/-! ## Reading nodes -/

/-- Pieces are read as nodes up to a word that ends them, or to the end. -/
def Parses (given : List Piece) (nodes : List Node) (ending : Option String) (rest : List Piece) :
    Prop :=
  ∃ le, parseNodes given = .ok ⟨nodes, ending, rest, le⟩

namespace Parses

theorem nil : Parses [] [] none [] := ⟨Nat.le_refl _, by rw [parseNodes]⟩

theorem stop (known : p.word? = some word) (stands : actionPart text = .ok p) :
    Parses (.action text :: tail) [] (some word) tail := by
  obtain rfl := (actionPart_word known).1 stands
  have ends : text = "end" ∨ text = "else" := by
    cases p <;> cases known <;> simp
  exact ⟨Nat.le_succ _, by rw [parseNodes, if_pos ends]⟩

theorem literal (behind : Parses tail nodes ending rest) :
    Parses (.literal text :: tail) (.literal text :: nodes) ending rest := by
  obtain ⟨le, read⟩ := behind
  exact ⟨Nat.le_succ_of_le le, by simp [parseNodes, read]⟩

theorem output (stands : actionPart text = .ok (.output e))
    (behind : Parses tail nodes ending rest) :
    Parses (.action text :: tail) (.output e :: nodes) ending rest := by
  obtain ⟨le, read⟩ := behind
  refine ⟨Nat.le_succ_of_le le, ?_⟩
  unfold actionPart at stands
  unfold parseNodes
  grind [map_eq_ok]

theorem choice (stands : actionPart text = .ok (.choice e))
    (inside : Parses tail body (some "end") given) (behind : Parses given nodes ending rest) :
    Parses (.action text :: tail) (.choice e body none :: nodes) ending rest := by
  obtain ⟨less, readBody⟩ := inside
  obtain ⟨le, read⟩ := behind
  refine ⟨Nat.le_succ_of_le (Nat.le_trans le less), ?_⟩
  unfold actionPart at stands
  unfold parseNodes
  grind [map_eq_ok]

theorem otherwise (stands : actionPart text = .ok (.choice e))
    (inside : Parses tail body (some "else") given)
    (inElse : Parses given other (some "end") given') (behind : Parses given' nodes ending rest) :
    Parses (.action text :: tail) (.choice e body (some other) :: nodes) ending rest := by
  obtain ⟨less, readBody⟩ := inside
  obtain ⟨less', readOther⟩ := inElse
  obtain ⟨le, read⟩ := behind
  refine ⟨Nat.le_succ_of_le (Nat.le_trans le (Nat.le_trans less' less)), ?_⟩
  unfold actionPart at stands
  unfold parseNodes
  grind [map_eq_ok]

theorem range (stands : actionPart text = .ok (.range e))
    (inside : Parses tail body (some "end") given) (behind : Parses given nodes ending rest) :
    Parses (.action text :: tail) (.range e body :: nodes) ending rest := by
  obtain ⟨less, readBody⟩ := inside
  obtain ⟨le, read⟩ := behind
  refine ⟨Nat.le_succ_of_le (Nat.le_trans le less), ?_⟩
  unfold actionPart at stands
  unfold parseNodes
  grind [map_eq_ok]

end Parses

/-- Pieces that stand for the parts of nodes are read as these nodes. -/
theorem Stands.parses {front : List Piece} (stands : Stands front (parts nodes))
    (behind : Parses given more ending rest) :
    Parses (front ++ given) (nodes ++ more) ending rest := by
  induction nodes using parts.induct generalizing front given more ending rest with
  | case1 =>
    rw [parts] at stands
    cases stands
    exact behind
  | case2 text nodes ih =>
    rw [parts] at stands
    obtain ⟨piece, tail, known, later, rfl⟩ := List.forall₂_cons_right_iff.1 stands
    obtain rfl := part_literal known
    exact .literal (ih later behind)
  | case3 value nodes ih =>
    rw [parts] at stands
    obtain ⟨text, tail, rfl, known, later⟩ := (Stands.cons_action rfl).1 stands
    exact .output known (ih later behind)
  | case4 condition body nodes ihBody ih =>
    rw [parts] at stands
    obtain ⟨text, tail, rfl, known, later⟩ := (Stands.cons_action rfl).1 stands
    obtain ⟨inner, tail, rfl, inside, later⟩ := Stands.append_iff.1 later
    obtain ⟨final, tail, rfl, ends, later⟩ := (Stands.cons_action rfl).1 later
    simp only [List.cons_append, List.append_assoc]
    exact .choice known (by simpa using ihBody inside (.stop rfl ends)) (ih later behind)
  | case5 condition body other nodes ihBody ihOther ih =>
    rw [parts] at stands
    obtain ⟨text, tail, rfl, known, later⟩ := (Stands.cons_action rfl).1 stands
    obtain ⟨inner, tail, rfl, inside, later⟩ := Stands.append_iff.1 later
    obtain ⟨middle, tail, rfl, divided, later⟩ := (Stands.cons_action rfl).1 later
    obtain ⟨inner', tail, rfl, inElse, later⟩ := Stands.append_iff.1 later
    obtain ⟨final, tail, rfl, ends, later⟩ := (Stands.cons_action rfl).1 later
    simp only [List.cons_append, List.append_assoc]
    exact .otherwise known (by simpa using ihBody inside (.stop rfl divided))
      (by simpa using ihOther inElse (.stop rfl ends)) (ih later behind)
  | case6 elements body nodes ihBody ih =>
    rw [parts] at stands
    obtain ⟨text, tail, rfl, known, later⟩ := (Stands.cons_action rfl).1 stands
    obtain ⟨inner, tail, rfl, inside, later⟩ := Stands.append_iff.1 later
    obtain ⟨final, tail, rfl, ends, later⟩ := (Stands.cons_action rfl).1 later
    simp only [List.cons_append, List.append_assoc]
    exact .range known (by simpa using ihBody inside (.stop rfl ends)) (ih later behind)

/-- Where nodes end: with the pieces, or at a word, behind which the rest stands. -/
def Ended (ending : Option String) (behind rest : List Piece) : Prop :=
  match ending with
  | none => behind = [] ∧ rest = []
  | some word => ∃ text p, behind = .action text :: rest ∧ actionPart text = .ok p ∧
    p.word? = some word

/-- Pieces are divided into those of nodes, what ends these, and a rest. -/
def Divided (given : List Piece) (nodes : List Node) (ending : Option String)
    (rest : List Piece) : Prop :=
  ∃ front behind, given = front ++ behind ∧ Stands front (parts nodes) ∧ Ended ending behind rest

namespace Divided

theorem nil : Divided [] [] none [] := ⟨[], [], rfl, by rw [parts]; exact .nil, rfl, rfl⟩

theorem stop (known : p.word? = some word) (stands : actionPart text = .ok p) :
    Divided (.action text :: tail) [] (some word) tail :=
  ⟨[], _, rfl, by rw [parts]; exact .nil, text, p, rfl, stands, known⟩

theorem literal (behind : Divided tail nodes ending rest) :
    Divided (.literal text :: tail) (.literal text :: nodes) ending rest := by
  obtain ⟨front, behind, rfl, stands, ended⟩ := behind
  exact ⟨.literal text :: front, behind, rfl, by rw [parts]; exact .cons rfl stands, ended⟩

theorem output (known : actionPart text = .ok (.output e))
    (behind : Divided tail nodes ending rest) :
    Divided (.action text :: tail) (.output e :: nodes) ending rest := by
  obtain ⟨front, behind, rfl, stands, ended⟩ := behind
  exact ⟨.action text :: front, behind, rfl, by rw [parts]; exact .cons known stands, ended⟩

/-- Nodes that a word ends stand before the action of that word. -/
theorem block (h : Divided tail body (some word) rest) (known : p.word? = some word) :
    ∃ inner text, tail = inner ++ .action text :: rest ∧ Stands inner (parts body) ∧
      actionPart text = .ok p := by
  obtain ⟨inner, behind, rfl, inside, text, q, rfl, stands, ends⟩ := h
  obtain rfl : q = p := by
    cases p <;> cases known <;> cases q <;> simp [Part.word?] at ends <;> rfl
  exact ⟨inner, text, rfl, inside, stands⟩

theorem choice (known : actionPart text = .ok (.choice e))
    (inside : Divided tail body (some "end") given) (behind : Divided given nodes ending rest) :
    Divided (.action text :: tail) (.choice e body none :: nodes) ending rest := by
  obtain ⟨inner, final, rfl, within, ends⟩ := inside.block (p := .finish) rfl
  obtain ⟨front, behind, rfl, stands, ended⟩ := behind
  refine ⟨.action text :: (inner ++ .action final :: front), behind, by simp, ?_, ended⟩
  rw [parts]
  exact .cons known (within.append (.cons ends stands))

theorem otherwise (known : actionPart text = .ok (.choice e))
    (inside : Divided tail body (some "else") given)
    (inElse : Divided given other (some "end") given') (behind : Divided given' nodes ending rest) :
    Divided (.action text :: tail) (.choice e body (some other) :: nodes) ending rest := by
  obtain ⟨inner, middle, rfl, within, divides⟩ := inside.block (p := .otherwise) rfl
  obtain ⟨inner', final, rfl, within', ends⟩ := inElse.block (p := .finish) rfl
  obtain ⟨front, behind, rfl, stands, ended⟩ := behind
  refine ⟨.action text :: (inner ++ .action middle :: (inner' ++ .action final :: front)), behind,
    by simp, ?_, ended⟩
  rw [parts]
  exact .cons known (within.append (.cons divides (within'.append (.cons ends stands))))

theorem range (known : actionPart text = .ok (.range e))
    (inside : Divided tail body (some "end") given) (behind : Divided given nodes ending rest) :
    Divided (.action text :: tail) (.range e body :: nodes) ending rest := by
  obtain ⟨inner, final, rfl, within, ends⟩ := inside.block (p := .finish) rfl
  obtain ⟨front, behind, rfl, stands, ended⟩ := behind
  refine ⟨.action text :: (inner ++ .action final :: front), behind, by simp, ?_, ended⟩
  rw [parts]
  exact .cons known (within.append (.cons ends stands))

end Divided

/-- Nodes are read from the pieces that stand for their parts. -/
theorem parseNodes_divides {p : Parsed given} (h : parseNodes given = .ok p) :
    Divided given p.nodes p.terminator p.rest := by
  fun_induction parseNodes given with
  | case1 =>
    cases h
    exact .nil
  | case3 text tail p read ih =>
    cases h
    exact .literal (ih read)
  | case4 text tail word =>
    cases h
    rcases word with rfl | rfl
    · exact .stop (p := .finish) rfl rfl
    · exact .stop (p := .otherwise) rfl rfl
  | case9 text tail noWord rest found condition read body readBody _ divided other readOther _ ended
      more readMore ihBody ihOther ih =>
    cases h
    have known : actionPart text = .ok (.choice condition) := by
      simp_all [actionPart, map_eq_ok]
    exact .otherwise known (divided ▸ ihBody readBody) (ended ▸ ihOther readOther) (ih readMore)
  | case12 text tail noWord rest found condition read body readBody _ _ ended more readMore ihBody
      ih =>
    cases h
    have known : actionPart text = .ok (.choice condition) := by
      simp_all [actionPart, map_eq_ok]
    exact .choice known (ended ▸ ihBody readBody) (ih readMore)
  | case17 text tail noWord noChoice rest found elements read body readBody _ ended more readMore
      ihBody ih =>
    cases h
    have known : actionPart text = .ok (.range elements) := by
      simp_all [actionPart, map_eq_ok]
    exact .range known (ended ▸ ihBody readBody) (ih readMore)
  | case21 text tail noWord noChoice noRange value read more readMore ih =>
    cases h
    have known : actionPart text = .ok (.output value) := by
      simp_all [actionPart, map_eq_ok]
    exact .output known (ih readMore)
  | case2 | case5 | case6 | case7 | case8 | case10 | case11 | case13 | case14 | case15 | case16
  | case18 | case19 | case20 => cases h

/-- A text is read as a tree if its pieces stand for the parts of the tree. -/
theorem parse_iff {source : String} : parse source = .ok nodes ↔
    ∃ given, pieces source.toList = .ok given ∧ Stands given (parts nodes) := by
  constructor
  · intro h
    unfold parse at h
    split at h
    · cases h
    · next given cut =>
      split at h
      · cases h
      · next p read =>
        split at h
        · next whole =>
          cases h
          obtain ⟨front, behind, rfl, stands, ended⟩ := parseNodes_divides read
          rw [whole] at ended
          obtain ⟨rfl, -⟩ := ended
          rw [List.append_nil] at cut
          exact ⟨front, cut, stands⟩
        · cases h
  · rintro ⟨given, cut, stands⟩
    have whole : Parses given nodes none [] := by simpa using stands.parses .nil
    obtain ⟨le, read⟩ := whole
    simp [parse, cut, read]

/-! ## Nesting -/

/-- What is open inside a template. -/
inductive Block where
  /-- A choice that may still be divided. -/
  | choice
  /-- A choice behind its `else`. -/
  | divided
  | range
deriving Repr, DecidableEq

/-- The blocks that are open behind a part, the innermost first: an `end` closes the innermost, and
an `else` divides it if it is a choice that was not divided before. -/
def Part.step (opened : List Block) : Part → Option (List Block)
  | literal _ | output _ => some opened
  | choice _ => some (.choice :: opened)
  | range _ => some (.range :: opened)
  | otherwise =>
    match opened with
    | .choice :: outer => some (.divided :: outer)
    | _ => none
  | finish =>
    match opened with
    | _ :: outer => some outer
    | [] => none

/-- The blocks of parts nest: none is closed that is not open, and none is left open. -/
def Nested (ps : List Part) : Prop := ps.foldlM Part.step [] = some []

instance (ps : List Part) : Decidable (Nested ps) := inferInstanceAs (Decidable (_ = _))

theorem parts_append (nodes more : List Node) :
    parts (nodes ++ more) = parts nodes ++ parts more := by
  induction nodes using parts.induct <;> simp_all [parts]

/-- The blocks that are open before nodes are open behind them. -/
theorem foldlM_parts (nodes : List Node) (opened : List Block) :
    (parts nodes).foldlM Part.step opened = some opened := by
  induction nodes using parts.induct generalizing opened <;>
    simp_all [parts, Part.step, List.foldlM_append]

/-- Parts close the open blocks, with nodes before each end and behind the last. -/
def Closes : List Block → List Part → Prop
  | [], ps => ∃ nodes, ps = parts nodes
  | .choice :: outer, ps =>
    (∃ body rest, ps = parts body ++ .finish :: rest ∧ Closes outer rest) ∨
      ∃ body other rest, ps = parts body ++ .otherwise :: (parts other ++ .finish :: rest) ∧
        Closes outer rest
  | _ :: outer, ps => ∃ body rest, ps = parts body ++ .finish :: rest ∧ Closes outer rest

/-- Nodes may stand before whatever closes the blocks. -/
theorem Closes.before {opened : List Block} (front : List Node) (h : Closes opened ps) :
    Closes opened (parts front ++ ps) := by
  cases opened with
  | nil =>
    obtain ⟨nodes, rfl⟩ := h
    exact ⟨front ++ nodes, (parts_append ..).symm⟩
  | cons block outer =>
    cases block with
    | choice =>
      obtain ⟨body, rest, rfl, closes⟩ | ⟨body, other, rest, rfl, closes⟩ := h
      · exact .inl ⟨front ++ body, rest, by simp [parts_append], closes⟩
      · exact .inr ⟨front ++ body, other, rest, by simp [parts_append], closes⟩
    | divided | range =>
      obtain ⟨body, rest, rfl, closes⟩ := h
      exact ⟨front ++ body, rest, by simp [parts_append], closes⟩

theorem closes_of_foldlM {opened : List Block} (h : ps.foldlM Part.step opened = some []) :
    Closes opened ps := by
  induction ps generalizing opened with
  | nil =>
    obtain rfl : opened = [] := by simpa using h
    exact ⟨[], by rw [parts]⟩
  | cons p ps ih =>
    rw [List.foldlM_cons] at h
    cases p with
    | literal text => simpa [parts] using (ih h).before [.literal text]
    | output value => simpa [parts] using (ih h).before [.output value]
    | choice condition =>
      obtain ⟨body, rest, rfl, closes⟩ | ⟨body, other, rest, rfl, closes⟩ := ih h
      · simpa [parts] using closes.before [.choice condition body none]
      · simpa [parts] using closes.before [.choice condition body (some other)]
    | range elements =>
      obtain ⟨body, rest, rfl, closes⟩ := ih h
      simpa [parts] using closes.before [.range elements body]
    | otherwise =>
      match opened with
      | .choice :: outer =>
        obtain ⟨other, rest, rfl, closes⟩ := ih h
        exact .inr ⟨[], other, rest, by simp [parts], closes⟩
    | finish =>
      match opened with
      | block :: outer =>
        have closed : ∃ body rest, Part.finish :: ps = parts body ++ .finish :: rest ∧
            Closes outer rest := ⟨[], ps, by simp [parts], ih h⟩
        cases block with
        | choice => exact .inl closed
        | divided | range => exact closed

/-- The parts that nest are those of trees. -/
theorem nested_iff : Nested ps ↔ ∃ nodes, ps = parts nodes := by
  constructor
  · exact closes_of_foldlM
  · rintro ⟨nodes, rfl⟩
    exact foldlM_parts nodes []

/-- A loop is not divided. -/
example : ¬ Nested [.range .here, .otherwise, .finish] := by decide

end StackScript.Template
