import StackScript.Pattern
import StackScript.Pattern.Problem
import StackScript.Text.Property

/-!
# Moving through a pattern

The state of reading the text of a pattern: what is left of it, the flags that hold here, the
groups that are open, and the first problem that leaves the text readable. Where blanks are
ignored, comments are blanks too.

Main statements: `skipBlanks_length` (skipping never adds characters).
-/
namespace StackScript.PatternReader

/-- What a pattern means depends on these. -/
structure Flags where
  ignoreCase : Bool := false
  /-- Whether anchors hold at lines too. -/
  multiLine : Bool := false
  /-- Whether a point stands for line ends too. -/
  dotAll : Bool := false
  /-- Whether classes and boundaries know more than ASCII. -/
  unicode : Bool := true
  /-- Whether a carriage return ends a line too. -/
  crlf : Bool := false
  /-- Whether blanks and comments are ignored. -/
  blanks : Bool := false
deriving Repr, DecidableEq

/-- A part of a sequence. -/
inductive Part where
  | pattern (p : Pattern)
  /-- A change of flags, which cannot be repeated. -/
  | flags

/-- What was read of a group so far, the last part and the last alternative first. -/
structure Draft where
  alternatives : List Pattern := []
  parts : List Part := []

/-- A group that is open, with the flags and the draft outside of it. -/
structure OpenGroup where
  span : Span
  flags : Flags
  outer : Draft

/-- The state of reading. -/
structure Reader where
  rest : List Char
  place : Place := {}
  flags : Flags := {}
  /-- The open groups, the innermost first. -/
  groups : List OpenGroup := []
  draft : Draft := {}
  /-- The names of groups with their places. -/
  names : List (String × Span) := []
  /-- The first problem that shows only when the text is readable as a whole. -/
  refusal : Option Problem := none

/-- Reading can meet a problem. -/
abbrev ReadM := StateT Reader (Except Problem)

/-- Report a problem. -/
def fail {α : Type} (kind : ProblemKind) (span : Span) : ReadM α := throw { kind, span }

/-- Remember a problem unless one is remembered already. -/
def refuse (kind : ProblemKind) (span : Span) : ReadM Unit :=
  modify fun r => { r with refusal := r.refusal.or (some { kind, span }) }

/-! ## Turns -/

/-- The outcome of one turn of a loop. -/
inductive Turn (σ β : Type) where
  | again (state : σ)
  | done (result : β)

/-- Take turns, at most `bound` of them. -/
def turns {σ β : Type} (turn : σ → ReadM (Turn σ β)) : (bound : Nat) → σ → ReadM β
  | 0, _ => do fail .tooDeep ⟨(← get).place, (← get).place⟩
  | bound + 1, state => do
    match ← turn state with
    | .again state => turns turn bound state
    | .done result => pure result

/-- Take turns until one is the last. Every turn reads a character or is the last, so that there
are no more turns than characters and one. -/
def repeatTurns {σ β : Type} (state : σ) (turn : σ → ReadM (Turn σ β)) : ReadM β := do
  turns turn ((← get).rest.length + 2) state

/-! ## Characters and places -/

/-- The next character. -/
def peek : ReadM (Option Char) := do pure (← get).rest.head?

/-- Whether a character is next. -/
def isNext (c : Char) : ReadM Bool := do pure ((← peek) == some c)

/-- Whether the pattern ends here. -/
def atEnd : ReadM Bool := do pure (← get).rest.isEmpty

/-- The place of the next character. -/
def here : ReadM Place := do pure (← get).place

/-- The empty span at the next character. -/
def spanHere : ReadM Span := do
  let p ← here
  pure ⟨p, p⟩

/-- The span from a place up to here. -/
def spanFrom (first : Place) : ReadM Span := do pure ⟨first, ← here⟩

/-- The span of the next character. -/
def spanNext : ReadM Span := do
  let p ← here
  pure ⟨p, ((← peek).map p.behind).getD p⟩

/-- Move past a character. The result says whether another one follows. -/
def skip : ReadM Bool := do
  let r ← get
  match r.rest with
  | [] => pure false
  | c :: rest =>
    set { r with rest := rest, place := r.place.behind c }
    pure !rest.isEmpty

/-- Move past a text if it is next. -/
def accept (text : String) : ReadM Bool := do
  let r ← get
  if text.toList.isPrefixOf r.rest then
    set { r with rest := r.rest.drop text.length, place := text.toList.foldl Place.behind r.place }
    pure true
  else pure false

/-- Skip blanks and comments from a place; a comment goes on to the end of its line. -/
def skipBlanks : (comment : Bool) → Place → List Char → Place × List Char
  | _, p, [] => (p, [])
  | true, p, c :: rest => skipBlanks (c != '\n') (p.behind c) rest
  | false, p, c :: rest =>
    if Text.isBlank c then skipBlanks false (p.behind c) rest
    else if c = '#' then skipBlanks true (p.behind c) rest
    else (p, c :: rest)

/-- Move past blanks where they are ignored. -/
def skipIgnored : ReadM Unit := do
  let r ← get
  if r.flags.blanks then
    let (place, rest) := skipBlanks false r.place r.rest
    set { r with place := place, rest := rest }

/-- Move past a character and the blanks after it. The result says whether another one follows. -/
def skipOn : ReadM Bool := do
  if ← skip then
    skipIgnored
    pure !(← atEnd)
  else pure false

/-- The character after blanks that are ignored. A comment is looked into, and blanks up to the end
count. -/
def afterBlanks : (comment : Bool) → List Char → Option Char
  | _, [] => none
  | comment, c :: rest =>
    if Text.isBlank c then afterBlanks comment rest
    else if !comment && c == '#' then afterBlanks true rest
    else some c

/-- The character after the next one. -/
def peekSecond : ReadM (Option Char) := do pure ((← get).rest.drop 1).head?

/-- The character after the next one and the blanks that are ignored. -/
def peekOn : ReadM (Option Char) := do
  let r ← get
  let rest := r.rest.drop 1
  if r.flags.blanks then pure ((afterBlanks false rest).or rest.head?) else pure rest.head?

/-- Add a pattern to the draft. -/
def push (p : Pattern) : ReadM Unit :=
  modify fun r => { r with draft := { r.draft with parts := .pattern p :: r.draft.parts } }

theorem skipBlanks_length (comment : Bool) (p : Place) (cs : List Char) :
    (skipBlanks comment p cs).2.length ≤ cs.length := by
  induction cs generalizing comment p with
  | nil => simp [skipBlanks]
  | cons c cs ih =>
    cases comment
    · rw [skipBlanks]
      split
      · exact Nat.le_succ_of_le (ih ..)
      · split
        · exact Nat.le_succ_of_le (ih ..)
        · exact Nat.le_refl _
    · rw [skipBlanks]
      exact Nat.le_succ_of_le (ih ..)

end StackScript.PatternReader
