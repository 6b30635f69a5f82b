import StackScript.Pattern.Escape

/-!
# Groups and flags

A parenthesis opens a group, which can have a name or flags of its own, or changes the flags up to
the end of the group it stands in.
-/
namespace StackScript.PatternReader

/-! ## Flags -/

/-- What a change of flags consists of. -/
inductive FlagItem where
  /-- The flags that follow are switched off. -/
  | off
  | ignoreCase
  | multiLine
  | dotAll
  /-- Which of several matches is preferred, which makes no difference to whether there is one. -/
  | swapGreed
  | unicode
  | crlf
  | blanks
deriving Repr, DecidableEq

/-- The item of a letter. -/
def flagItem? : Char → Option FlagItem
  | '-' => some .off
  | 'i' => some .ignoreCase
  | 'm' => some .multiLine
  | 's' => some .dotAll
  | 'U' => some .swapGreed
  | 'u' => some .unicode
  | 'R' => some .crlf
  | 'x' => some .blanks
  | _ => none

/-- Set the flag of an item. -/
def Flags.set (f : Flags) (on : Bool) : FlagItem → Flags
  | .off | .swapGreed => f
  | .ignoreCase => { f with ignoreCase := on }
  | .multiLine => { f with multiLine := on }
  | .dotAll => { f with dotAll := on }
  | .unicode => { f with unicode := on }
  | .crlf => { f with crlf := on }
  | .blanks => { f with blanks := on }

/-- Flags changed by items. -/
def Flags.change (f : Flags) (items : List FlagItem) : Flags :=
  let on := items.takeWhile (· != .off)
  let off := items.dropWhile (· != .off)
  off.foldl (·.set false) (on.foldl (·.set true) f)

/-- Add an item, which must be new, to those that were read, the last one first. -/
def addFlagItem (items : List (FlagItem × Span)) : ReadM (List (FlagItem × Span)) := do
  let span ← spanNext
  match (← peek).bind flagItem? with
  | none => fail .flagUnrecognized span
  | some item =>
    match items.find? (·.1 == item) with
    | some (_, earlier) =>
      let kind := if item = .off then ProblemKind.flagRepeatedNegation else .flagDuplicate
      throw { kind, span, earlier := some earlier }
    | none => pure ((item, span) :: items)

/-- The items before a colon or a closing parenthesis. -/
def flagItems : ReadM (List FlagItem) := do
  let items ← repeatTurns ([] : List (FlagItem × Span)) fun items => do
    if (← isNext ':') || (← isNext ')') then pure (.done items)
    else
      let items ← addFlagItem items
      if !(← skip) then fail .flagUnexpectedEnd (← spanHere)
      pure (.again items)
  match items with
  | (.off, span) :: _ => fail .flagDanglingNegation span
  | _ => pure (items.reverse.map (·.1))

/-! ## Names -/

/-- Whether a character can be in a name, or can start one. -/
def inGroupName (first : Bool) (c : Char) : Bool :=
  c == '_' ||
    if first then Text.isAlphabetic c
    else Text.isAlphanumeric c || c == '.' || c == '[' || c == ']'

/-- The name of a group up to its closing bracket, which no other group may have. -/
def groupName : ReadM Unit := do
  let first ← here
  let cs ← repeatTurns [] fun cs => do
    match (← peek).filter (· != '>') with
    | none => pure (.done cs.reverse)
    | some c =>
      if !inGroupName cs.isEmpty c then fail .groupNameInvalid (← spanNext)
      let _ ← skip
      pure (.again (c :: cs))
  let span ← spanFrom first
  if ← atEnd then fail .groupNameUnexpectedEnd (← spanHere)
  let _ ← skip
  if cs.isEmpty then fail .groupNameEmpty ⟨first, first⟩
  let name := String.ofList cs
  match (← get).names.find? (·.1 == name) with
  | some (_, earlier) => throw { kind := .groupNameDuplicate, span, earlier := some earlier }
  | none => modify fun r => { r with names := (name, span) :: r.names }

/-! ## Opening and closing -/

/-- Open a group with flags. -/
def enterGroup (span : Span) (flags : Flags) : ReadM Unit :=
  modify fun r =>
    { r with
      groups := ⟨span, r.flags, r.draft⟩ :: r.groups
      draft := {}
      flags := flags }

/-- Whether a look behind or ahead is next, which is moved past. -/
def acceptLookAround : ReadM Bool := do
  if ← accept "?=" then pure true
  else if ← accept "?!" then pure true
  else if ← accept "?<=" then pure true
  else accept "?<!"

/-- Whether a name is next. -/
def acceptNaming : ReadM Bool := do
  if ← accept "?P<" then pure true else accept "?<"

/-- An opening parenthesis and what belongs to it. -/
def openGroup : ReadM Unit := do
  let span ← spanNext
  let _ ← skip
  skipIgnored
  if ← acceptLookAround then fail .lookAround (← spanFrom span.first)
  let inner ← spanHere
  let flags := (← get).flags
  if ← acceptNaming then
    groupName
    enterGroup span flags
  else if ← accept "?" then
    if ← atEnd then fail .groupUnclosed span
    let items ← flagItems
    let changes ← isNext ')'
    let _ ← skip
    let flags := flags.change items
    if !changes then enterGroup span flags
    else if items.isEmpty then fail .repetitionMissing inner
    else
      modify fun r =>
        { r with flags := flags, draft := { r.draft with parts := .flags :: r.draft.parts } }
  else enterGroup span flags

/-- The pattern of a part. -/
def Part.toPattern : Part → Pattern
  | pattern p => p
  | flags => .empty

/-- The sequence of parts, the last one first. -/
def sequenceOf : List Part → Pattern
  | [] => .empty
  | [p] => p.toPattern
  | p :: rest => .sequence (sequenceOf rest) p.toPattern

/-- End the current alternative. -/
def Draft.alternate (d : Draft) : Draft :=
  { alternatives := sequenceOf d.parts :: d.alternatives }

/-- The choice of all alternatives. -/
def Draft.pattern (d : Draft) : Pattern :=
  d.alternatives.foldl (fun p earlier => .choice earlier p) (sequenceOf d.parts)

/-- A closing parenthesis, after which the flags outside of the group hold again. -/
def closeGroup : ReadM Unit := do
  let r ← get
  match r.groups with
  | [] => fail .groupUnopened (← spanNext)
  | g :: rest =>
    set { r with
      groups := rest
      flags := g.flags
      draft := { g.outer with parts := .pattern r.draft.pattern :: g.outer.parts } }
    let _ ← skip

end StackScript.PatternReader
