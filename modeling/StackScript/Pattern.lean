/-!
# Patterns

Regular expressions over characters, with assertions about the characters on both sides of a place
in the text. A pattern leads from places to the places where what it matches ends; following all
places at once, it never tries anything twice.

Main statements: `length_reach` (places are never lost or added) and `occursIn_choice` (a choice
occurs where one of its sides does).
-/
namespace StackScript

/-- A regular expression. -/
inductive Pattern where
  /-- Matches nothing but the empty text. -/
  | empty
  /-- One of some characters. -/
  | one (accepts : Char → Bool)
  /-- The empty text where the characters before and after it are as asked for. -/
  | look (holds : Option Char → Option Char → Bool)
  | sequence (a b : Pattern)
  | choice (a b : Pattern)
  /-- At least so many times the same, and perhaps at most so many times. -/
  | repeated (p : Pattern) (least : Nat) (most : Option Nat)

namespace Pattern

/-! ## Sets of places -/

/-- A set of places in a text, the place before its first character first. -/
abbrev Places := List Bool

namespace Places

/-- Whether there is any place. -/
def isEmpty (s : Places) : Bool := s.all (!·)

/-- The places of either set. -/
def union (s t : Places) : Places := s.zipWith (· || ·) t

/-- The places of the first set that are not in the second one. -/
def minus (s t : Places) : Places := s.zipWith (fun a b => a && !b) t

/-- Follow a step so many times. Once it leads nowhere new it is not followed any more. -/
def iterate (step : Places → Places) : (times : Nat) → Places → Places
  | 0, s => s
  | times + 1, s =>
    let t := step s
    if t == s then s else iterate step times t

/-- Add the places that at most so many steps lead to from the newest ones. -/
def spread (step : Places → Places) : (times : Nat) → (newest found : Places) → Places
  | 0, _, found => found
  | times + 1, newest, found =>
    let fresh := (step newest).minus found
    if fresh.isEmpty then found else spread step times fresh (found.union fresh)

end Places

/-! ## Matching -/

/-- The characters before and after every place of a text. -/
def surroundings (text : List Char) : List (Option Char × Option Char) :=
  (none :: text.map some).zip (text.map some ++ [none])

/-- The places behind a character of the text. -/
def behind (text : List Char) (accepts : Char → Bool) (s : Places) : Places :=
  false :: text.zipWith (fun c here => here && accepts c) s

/-- The places where an assertion holds. -/
def holding (text : List Char) (holds : Option Char → Option Char → Bool) (s : Places) : Places :=
  (surroundings text).zipWith (fun around here => here && holds around.1 around.2) s

/-- The places that a pattern leads to. -/
def reach (text : List Char) : Pattern → Places → Places
  | empty, s => s
  | one accepts, s => behind text accepts s
  | look holds, s => holding text holds s
  | sequence a b, s => reach text b (reach text a s)
  | choice a b, s => (reach text a s).union (reach text b s)
  | repeated p least most, s =>
    let start := Places.iterate (reach text p) least s
    let more := match most with
      | some most => most - least
      | none => text.length + 1
    Places.spread (reach text p) more start start

/-- All places of a text. -/
def everywhere (text : List Char) : Places := List.replicate (text.length + 1) true

/-- Whether any part of a text matches. -/
def occursIn (p : Pattern) (text : String) : Bool :=
  !(p.reach text.toList (everywhere text.toList)).isEmpty

/-- How many steps a machine for the pattern has, in which repetitions are written out. -/
def steps : Pattern → Nat
  | empty => 1
  | one _ => 1
  | look _ => 1
  | sequence a b => a.steps + b.steps
  | choice a b => a.steps + b.steps + 1
  | repeated p least most =>
    match most with
    | some most => least * p.steps + (most - least) * (p.steps + 1)
    | none => (max least 1) * p.steps + 1

/-! ## Laws -/

namespace Places

theorem length_union {s t : Places} {n : Nat} (hs : s.length = n) (ht : t.length = n) :
    (s.union t).length = n := by
  simp [union, hs, ht]

theorem length_minus {s t : Places} {n : Nat} (hs : s.length = n) (ht : t.length = n) :
    (s.minus t).length = n := by
  simp [minus, hs, ht]

theorem length_iterate {step : Places → Places} {n : Nat}
    (keeps : ∀ s : Places, s.length = n → (step s).length = n) (times : Nat) {s : Places}
    (hs : s.length = n) : (iterate step times s).length = n := by
  induction times generalizing s with
  | zero => exact hs
  | succ times ih =>
    rw [iterate]
    split
    · exact hs
    · exact ih (keeps s hs)

theorem length_spread {step : Places → Places} {n : Nat}
    (keeps : ∀ s : Places, s.length = n → (step s).length = n) (times : Nat)
    {newest found : Places} (hn : newest.length = n) (hf : found.length = n) :
    (spread step times newest found).length = n := by
  induction times generalizing newest found with
  | zero => exact hf
  | succ times ih =>
    rw [spread]
    split
    · exact hf
    · have fresh := length_minus (keeps newest hn) hf
      exact ih fresh (length_union hf fresh)

end Places

theorem length_reach (text : List Char) (p : Pattern) {s : Places}
    (h : s.length = text.length + 1) : (p.reach text s).length = text.length + 1 := by
  induction p generalizing s with
  | empty => exact h
  | one accepts => simp [reach, behind, h]
  | look holds => simp [reach, holding, surroundings, h]
  | sequence a b iha ihb => exact ihb (iha h)
  | choice a b iha ihb => exact Places.length_union (iha h) (ihb h)
  | repeated p least most ih =>
    have keeps (s : Places) (hs : s.length = text.length + 1) := ih hs
    have start := Places.length_iterate keeps least h
    exact Places.length_spread keeps _ start start

theorem occursIn_empty (text : String) : occursIn empty text = true := by
  simp [occursIn, reach, Places.isEmpty, everywhere, List.replicate_succ]

theorem isEmpty_union {s t : Places} (h : s.length = t.length) :
    (s.union t).isEmpty = (s.isEmpty && t.isEmpty) := by
  induction s generalizing t with
  | nil => cases t <;> simp_all [Places.union, Places.isEmpty]
  | cons a s ih =>
    cases t with
    | nil => simp at h
    | cons b t =>
      have := ih (t := t) (by simpa using h)
      simp only [Places.union, Places.isEmpty, List.zipWith_cons_cons, List.all_cons] at *
      rw [this]
      cases a <;> cases b <;> simp

theorem occursIn_choice (a b : Pattern) (text : String) :
    (choice a b).occursIn text = (a.occursIn text || b.occursIn text) := by
  have places : (everywhere text.toList).length = text.toList.length + 1 := by simp [everywhere]
  have same := (length_reach _ a places).trans (length_reach _ b places).symm
  simp [occursIn, reach, isEmpty_union same, Bool.not_and]

end Pattern

end StackScript
