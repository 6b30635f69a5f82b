import StackScript.Pattern.Escape

/-!
# Sets in brackets

Characters, ranges, classes and sets in brackets, which can be joined by `&&`, `--` and `~~`. These
are read from left to right and none binds closer than the others. A bracket that closes is a
character where no other could stand, and so are hyphens at the start.

Main statements: `apply_difference_self` (nothing is left of a set without itself).
-/
namespace StackScript.PatternReader

/-- What joins two sets. -/
inductive SetOperation where
  | intersection
  | difference
  | symmetricDifference
deriving Repr, DecidableEq

/-- The set that an operation makes of two. -/
def SetOperation.apply (o : SetOperation) (a b : Members) : Members :=
  match o with
  | intersection => fun c => a c && b c
  | difference => fun c => a c && !b c
  | symmetricDifference => fun c => a c != b c

theorem SetOperation.apply_difference_self (a : Members) :
    SetOperation.difference.apply a a = Members.none := by
  funext c
  simp [SetOperation.apply, Members.none]

/-- What was read of a set in brackets. -/
structure SetDraft where
  /-- What stands behind the last operation. -/
  members : Members := .none
  /-- The last operation and what stands before it. -/
  pending : Option (SetOperation × Members) := none

namespace SetDraft

/-- Add characters. -/
def add (d : SetDraft) (m : Members) : SetDraft := { d with members := d.members.union m }

/-- The set that was read. The sides of an operation have every form of their characters. -/
def result (f : Flags) (d : SetDraft) : Members :=
  match d.pending with
  | none => d.members
  | some (o, before) => o.apply (before.folded f) (d.members.folded f)

/-- Go on with an operation. -/
def operate (f : Flags) (d : SetDraft) (o : SetOperation) : SetDraft :=
  { pending := some (o, d.result f) }

end SetDraft

/-- A bracket that is open, with the set outside of it. -/
structure OpenBracket where
  span : Span
  negate : Bool
  outer : SetDraft

/-- An open bracket with all that can stand before the first character of its set, and what it has
of the set. -/
def openBracket (outer : SetDraft) : ReadM (OpenBracket × SetDraft) := do
  let first ← here
  if !(← skipOn) then fail .classUnclosed (← spanFrom first)
  let negate ← isNext '^'
  if negate then
    if !(← skipOn) then fail .classUnclosed (← spanFrom first)
  let (hyphens, d) ← repeatTurns (false, ({} : SetDraft)) fun (hyphens, d) => do
    if ← isNext '-' then
      if !(← skipOn) then fail .classUnclosed ⟨first, first⟩
      pure (.again (true, d.add (· == '-')))
    else pure (.done (hyphens, d))
  let closing ← isNext ']'
  let d ← if !hyphens && closing then
      if !(← skipOn) then fail .classUnclosed (← spanFrom first)
      pure (d.add (· == ']'))
    else pure d
  pure (⟨← spanFrom first, negate, outer⟩, d)

/-- A class of ASCII characters between `[:` and `:]`, if one is next. -/
def asciiClass? : ReadM (Option Members) := do
  let r ← get
  let inner := r.rest.drop 2
  let negate := inner.head? == some '^'
  let name := String.ofList ((if negate then inner.drop 1 else inner).takeWhile (· != ':'))
  match asciiNamed? name with
  | none => pure none
  | some m =>
    let first ← here
    if ← accept ("[:" ++ (if negate then "^" else "") ++ name ++ ":]") then
      let f := r.flags
      let m := (m.folded f).negatedIf negate
      if !f.unicode && !m.isAscii then refuse .invalidUtf8 (← spanFrom first)
      pure (some m)
    else pure none

/-- A character or an escape. -/
def setAtom : ReadM Atom := do
  match ← peek with
  | some '\\' => escape
  | c =>
    let span ← spanNext
    let _ ← skip
    pure ⟨.literal (c.getD ' ') false, span⟩

/-- The characters that an atom stands for in brackets. -/
def atomMembers (a : Atom) : ReadM Members := do
  let f := (← get).flags
  match a.kind with
  | .literal c byte =>
    if !f.unicode && 127 < c.toNat then
      refuse (if byte then .invalidUtf8 else .unicodeNotAllowed) a.span
    pure (· == c)
  | .letterClass k negate => letterMembers f a.span k negate
  | .property found negate => propertyMembers f a.span found negate
  | .any | .assertion _ => fail .classEscapeInvalid a.span

/-- The character that an atom stands for at the end of a range. -/
def rangeEnd (a : Atom) : ReadM Char :=
  match a.kind with
  | .literal c _ => pure c
  | _ => fail .classRangeLiteral a.span

/-- A character, an escape or a range. -/
def setItem (unclosed : ReadM Members) : ReadM Members := do
  let a ← setAtom
  skipIgnored
  let second ← peekOn
  match ← peek with
  | none => unclosed
  | some c =>
    if c != '-' || second == some ']' || second == some '-' then atomMembers a
    else if !(← skipOn) then unclosed
    else
      let b ← setAtom
      let first ← rangeEnd a
      let last ← rangeEnd b
      if last < first then fail .classRangeInvalid ⟨a.span.first, b.span.after⟩
      let _ ← atomMembers a
      let _ ← atomMembers b
      pure (.range first last)

/-- The set of a bracket that closes. -/
def closeBracket (b : OpenBracket) (d : SetDraft) : ReadM Members := do
  let f := (← get).flags
  let _ ← skip
  let m := ((d.result f).folded f).negatedIf b.negate
  if !f.unicode && !m.isAscii then refuse .invalidUtf8 (← spanFrom b.span.first)
  pure m

/-- The brackets that are open, the innermost first, and what was read of its set. -/
structure BracketState where
  innermost : OpenBracket
  enclosing : List OpenBracket
  draft : SetDraft

/-- The operation that is next. -/
def setOperation? : ReadM (Option SetOperation) := do
  if ← accept "&&" then pure (some .intersection)
  else if ← accept "--" then pure (some .difference)
  else if ← accept "~~" then pure (some .symmetricDifference)
  else pure none

/-- One item of a set, an operation or a bracket. -/
def bracketTurn (s : BracketState) : ReadM (Turn BracketState Members) := do
  skipIgnored
  match ← peek with
  | none => fail .classUnclosed s.innermost.span
  | some ']' =>
    let m ← closeBracket s.innermost s.draft
    match s.enclosing with
    | [] => pure (.done m)
    | b :: rest => pure (.again ⟨b, rest, s.innermost.outer.add m⟩)
  | some '[' =>
    match ← asciiClass? with
    | some m => pure (.again { s with draft := s.draft.add m })
    | none =>
      let (b, d) ← openBracket s.draft
      pure (.again ⟨b, s.innermost :: s.enclosing, d⟩)
  | some _ =>
    match ← setOperation? with
    | some o => pure (.again { s with draft := s.draft.operate (← get).flags o })
    | none =>
      let m ← setItem (fail .classUnclosed s.innermost.span)
      pure (.again { s with draft := s.draft.add m })

/-- A set in brackets. -/
def bracket : ReadM Pattern := do
  let (b, d) ← openBracket {}
  .one <$> repeatTurns ⟨b, [], d⟩ bracketTurn

end StackScript.PatternReader
