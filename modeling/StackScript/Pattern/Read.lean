import StackScript.Pattern.Bracket
import StackScript.Pattern.Group

/-!
# Reading patterns

The text of a pattern becomes a pattern, or a fault: a problem of the text, or that the pattern
with its repetitions written out is too big.

Main statements: `ofText_empty` (the empty text is the empty pattern).
-/
namespace StackScript.PatternReader

/-! ## Repetitions -/

/-- How often something is repeated. -/
structure Count where
  least : Nat
  most : Option Nat

/-- Take the last part for a repetition. -/
def takeLast : ReadM Pattern := do
  let r ← get
  match r.draft.parts with
  | .pattern p :: rest =>
    set { r with draft := { r.draft with parts := rest } }
    pure p
  | _ => fail .repetitionMissing (← spanHere)

/-- Repeat the last part by one of the marks for it. A question mark after it makes no difference
to whether there is a match. -/
def repeatByMark (count : Count) : ReadM Unit := do
  let p ← takeLast
  if ← skip then
    let _ ← accept "?"
  push (.repeated p count.least count.most)

/-- Move past blanks. -/
def skipBlank : ReadM Unit :=
  repeatTurns () fun _ => do
    if (← peek).any Text.isBlank then
      let _ ← skip
      skipIgnored
      pure (.again ())
    else pure (.done ())

/-- Repetition counts below this number can be written. -/
def repetitionLimit : Nat := 0x100000000

/-- A number, or the problem of it. -/
def decimal : ReadM (Except Problem Nat) := do
  skipBlank
  let first ← here
  let ds ← repeatTurns [] fun ds => do
    match (← peek).filter Char.isDigit with
    | some d =>
      let _ ← skipOn
      pure (.again (d :: ds))
    | none => pure (.done ds.reverse)
  let span ← spanFrom first
  skipBlank
  let n := ds.foldl (fun n d => n * 10 + (d.toNat - 48)) 0
  pure
    (if ds.isEmpty then .error { kind := .repetitionCountEmpty, span }
    else if repetitionLimit ≤ n then .error { kind := .decimalInvalid, span }
    else .ok n)

/-- A number that must be there. -/
def asked (n : Except Problem Nat) : ReadM Nat := MonadExcept.ofExcept n

/-- The numbers between braces. -/
def count (first : Place) : ReadM Count := do
  let unclosed {α : Type} : ReadM α := do fail .repetitionCountUnclosed (← spanFrom first)
  if !(← skipOn) then unclosed
  let least ← decimal
  if ← atEnd then unclosed
  let result ← if ← isNext ',' then
      if !(← skipOn) then unclosed
      if ← isNext '\x7d' then do pure ⟨← asked least, none⟩
      else
        let least ← asked least
        let most ← asked (← decimal)
        pure ⟨least, some most⟩
    else
      let n ← asked least
      pure (Count.mk n (some n))
  if !(← isNext '\x7d') then unclosed
  pure result

/-- Repeat the last part by the numbers between braces. -/
def repeatByCount : ReadM Unit := do
  let first ← here
  let p ← takeLast
  let count ← count first
  if ← skipOn then
    let _ ← accept "?"
  if count.most.any (· < count.least) then fail .repetitionCountInvalid (← spanFrom first)
  push (.repeated p count.least count.most)

/-! ## Patterns -/

/-- One part of a pattern. -/
def partTurn : ReadM (Turn Unit Unit) := do
  skipIgnored
  match ← peek with
  | none => return .done ()
  | some '(' => openGroup
  | some ')' => closeGroup
  | some '|' =>
    modify fun r => { r with draft := r.draft.alternate }
    let _ ← skip
  | some '[' => do push (← bracket)
  | some '?' => repeatByMark ⟨0, some 1⟩
  | some '*' => repeatByMark ⟨0, none⟩
  | some '+' => repeatByMark ⟨1, none⟩
  | some '\x7b' => repeatByCount
  | some _ =>
    let a ← atom
    push (← a.pattern)
  pure (.again ())

/-- A whole pattern. Problems that leave the text readable come last. -/
def pattern : ReadM Pattern := do
  repeatTurns () fun _ => partTurn
  let r ← get
  match r.groups, r.refusal with
  | g :: _, _ => fail .groupUnclosed g.span
  | [], some p => throw p
  | [], none => pure r.draft.pattern

end StackScript.PatternReader

namespace StackScript.Pattern

/-- Why a text is no pattern. -/
inductive Refusal where
  | problem (p : PatternReader.Problem)
  | tooBig
deriving Repr, DecidableEq

/-- How many bytes a pattern may take, and how many each of its steps takes. -/
def byteLimit : Nat := 10485760

/-- How many bytes a step takes. -/
def stepBytes : Nat := 32

/-- The report on a text that is no pattern. -/
def Refusal.report (r : Refusal) (text : String) : String :=
  match r with
  | problem p => p.report text
  | tooBig => "Compiled regex exceeds size limit of " ++ Decimal.ofNat byteLimit ++ " bytes."

/-- Read a pattern. -/
def ofText (text : String) : Except Refusal Pattern :=
  match PatternReader.pattern.run { rest := text.toList } with
  | .error p => .error (.problem p)
  | .ok (p, _) => if byteLimit < p.steps * stepBytes then .error .tooBig else .ok p

theorem ofText_empty : ofText "" = .ok .empty := by rfl

end StackScript.Pattern
