import Mathlib.Data.List.Basic
import Mathlib.Tactic.Ring
import StackScript.Builtin.Call

/-!
# Insertion

What it is to have sorted a list stably by a strict weak order, and what becomes of a sort by
comparisons, whatever they answer: it keeps the items and ends after a bounded number of
comparisons. Where the answers are those of a strict weak order, the items before the next one are
sorted stably but for the one that is being put into its place.

Main statements: `Stable.insert` (an item belongs behind those that it is not less than),
`Compared.shape` and `Compared.progress` (what any run of comparisons keeps), `Compared.count_le`
and `Compared.stable`.
-/
namespace StackScript

variable {α : Type} {lt : α → α → Bool}

/-- A strict weak order of the items of a list. -/
structure StrictWeak (lt : α → α → Bool) (items : List α) : Prop where
  irrefl : ∀ x ∈ items, lt x x = false
  trans : ∀ x ∈ items, ∀ y ∈ items, ∀ z ∈ items, lt x y = true → lt y z = true → lt x z = true
  /-- Whatever lies beside two items, one less than the other, is told apart from one of them. -/
  splits : ∀ x ∈ items, ∀ y ∈ items, ∀ z ∈ items, lt x z = true → lt x y = true ∨ lt y z = true

/-- Whether neither of two items is less than the other. -/
def equivalent (lt : α → α → Bool) (x y : α) : Bool := !lt x y && !lt y x

/-- A list has been sorted: it has the same items, none of them less than an earlier one, and those
that are equivalent to any one are in the order in which they were. -/
structure Stable (lt : α → α → Bool) (original sorted : List α) : Prop where
  perm : sorted.Perm original
  ordered : sorted.Pairwise fun x y => lt y x = false
  kept : ∀ x ∈ original, sorted.filter (equivalent lt x) = original.filter (equivalent lt x)

namespace StrictWeak

variable {items : List α}

theorem mono {fewer : List α} (h : StrictWeak lt items) (sub : ∀ x ∈ fewer, x ∈ items) :
    StrictWeak lt fewer where
  irrefl x hx := h.irrefl x (sub x hx)
  trans x hx y hy z hz := h.trans x (sub x hx) y (sub y hy) z (sub z hz)
  splits x hx y hy z hz := h.splits x (sub x hx) y (sub y hy) z (sub z hz)

theorem asymm (h : StrictWeak lt items) {x y : α} (hx : x ∈ items) (hy : y ∈ items)
    (less : lt x y = true) : lt y x = false := by
  by_contra greater
  have loop := h.trans x hx y hy x hx less (by simpa using greater)
  rw [h.irrefl x hx] at loop
  cases loop

/-- Equivalent items are equivalent to the same items. -/
theorem equivalent_congr (h : StrictWeak lt items) {x y z : α} (hx : x ∈ items) (hy : y ∈ items)
    (hz : z ∈ items) (same : equivalent lt x y = true) : equivalent lt x z = equivalent lt y z := by
  obtain ⟨notLess, notGreater⟩ : lt x y = false ∧ lt y x = false := by simpa [equivalent] using same
  have below : lt x z = lt y z := by
    refine Bool.eq_iff_iff.2 ⟨fun less => ?_, fun less => ?_⟩
    · exact (h.splits x hx y hy z hz less).resolve_left (by simp [notLess])
    · exact (h.splits y hy x hx z hz less).resolve_left (by simp [notGreater])
  have above : lt z x = lt z y := by
    refine Bool.eq_iff_iff.2 ⟨fun less => ?_, fun less => ?_⟩
    · exact (h.splits z hz y hy x hx less).resolve_right (by simp [notGreater])
    · exact (h.splits z hz x hx y hy less).resolve_right (by simp [notLess])
  rw [equivalent, equivalent, below, above]

end StrictWeak

namespace Stable

variable {original sorted : List α}

theorem nil : Stable lt ([] : List α) [] := ⟨.refl _, .nil, fun _ _ => rfl⟩

/-- What is equivalent to any item of a strict weak order is in the order in which it was. -/
theorem filter_eq {items : List α} (h : Stable lt original sorted) (order : StrictWeak lt items)
    (sub : ∀ y ∈ original, y ∈ items) {x : α} (hx : x ∈ items) :
    sorted.filter (equivalent lt x) = original.filter (equivalent lt x) := by
  by_cases found : ∃ y ∈ original, equivalent lt x y = true
  · obtain ⟨y, hy, same⟩ := found
    have congr {z : α} (hz : z ∈ original) : equivalent lt x z = equivalent lt y z :=
      order.equivalent_congr hx (sub y hy) (sub z hz) same
    rw [List.filter_congr fun z hz => congr hz,
      List.filter_congr fun z hz => congr (h.perm.mem_iff.1 hz), h.kept y hy]
  · have none {l : List α} (mem : ∀ y ∈ l, y ∈ original) : l.filter (equivalent lt x) = [] :=
      List.filter_eq_nil_iff.2 fun y hy same => found ⟨y, mem y hy, same⟩
    rw [none fun y => h.perm.mem_iff.1, none fun _ => id]

/-- The next item belongs behind those that it is not less than and before those that it is less
than. -/
theorem insert {seen : List α} (low high : List α) {v : α} (order : StrictWeak lt (seen ++ [v]))
    (h : Stable lt seen (low ++ high)) (above : ∀ y ∈ high, lt v y = true)
    (below : ∀ x ∈ low, lt v x = false) : Stable lt (seen ++ [v]) (low ++ v :: high) := by
  have own : v ∈ seen ++ [v] := by simp
  have known {x : α} (mem : x ∈ low ++ high) : x ∈ seen ++ [v] :=
    List.mem_append_left _ (h.perm.mem_iff.1 mem)
  refine ⟨?_, ?_, fun x mem => ?_⟩
  · exact List.perm_middle.trans ((h.perm.cons v).trans (List.perm_append_singleton v seen).symm)
  · obtain ⟨low', high', across⟩ := List.pairwise_append.1 h.ordered
    refine List.pairwise_append.2
      ⟨low', List.pairwise_cons.2 ⟨fun y hy => ?_, high'⟩, fun x hx y hy => ?_⟩
    · exact order.asymm own (known (List.mem_append_right _ hy)) (above y hy)
    · rcases List.mem_cons.1 hy with rfl | hy
      · exact below x hx
      · exact across x hx y hy
  · have before := h.filter_eq order (fun _ => List.mem_append_left _) mem
    cases same : equivalent lt x v with
    | false => simpa [same] using before
    | true =>
      -- What is equivalent to the item is not among the greater ones.
      have apart : high.filter (equivalent lt x) = [] := by
        refine List.filter_eq_nil_iff.2 fun y hy also => ?_
        rw [order.equivalent_congr mem own (known (List.mem_append_right _ hy)) same] at also
        simp [equivalent, above y hy] at also
      simp only [List.filter_append, apart, List.append_nil] at before
      simp [same, apart, before]

/-- An item that is not less than one of the sorted items is not less than those before it. -/
theorem not_less {low high items : List α} {u v : α} (order : StrictWeak lt items)
    (h : Stable lt original (low ++ u :: high)) (sub : ∀ y ∈ original, y ∈ items) (hv : v ∈ items)
    (last : lt v u = false) : ∀ x ∈ low ++ [u], lt v x = false := by
  have known {x : α} (mem : x ∈ low ++ u :: high) : x ∈ items := sub x (h.perm.mem_iff.1 mem)
  intro x mem
  rcases List.mem_append.1 mem with before | same
  · by_contra less
    have apart := order.splits v hv u (known (by simp)) x (known (by simp [before])) (by simpa using less)
    have ordered := (List.pairwise_append.1 h.ordered).2.2 x before u (by simp)
    simp [last, ordered] at apart
  · rwa [List.mem_singleton.1 same]

end Stable

end StackScript

namespace StackScript.Sorting

/-! ## Comparisons -/

/-- A comparison that was made, and what it said. -/
structure Comparison where
  left : Value
  right : Value
  isLess : Bool

/-- A way to make the comparisons of a sort: what comes of comparing two values somewhere, and
where that leads. -/
abbrev Way (σ : Type) : Type := Sorting → σ → Value → Value → Except Fault Value → σ → Prop

variable {σ : Type} {way : Way σ} {o o' : Sorting} {a b : σ} {trace : List Comparison}

/-- A sort has made some comparisons, each where the one before it has led. -/
inductive Compared (way : Way σ) (o : Sorting) (a : σ) : List Comparison → Sorting → σ → Prop
  | start : Compared way o a [] o a
  | next {trace : List Comparison} {o' : Sorting} {b c : σ} {x y v : Value}
      (before : Compared way o a trace o' b) (pair : o'.comparison? = some (x, y))
      (called : way o' b x y (.ok v) c) :
      Compared way o a (trace ++ [⟨x, y, v.isTruthy⟩]) (o'.compared v.isTruthy) c

/-! ## What every sort keeps -/

/-- A sort of some items that has made so many comparisons. -/
structure Shape (origin : Sorting) (count : Nat) (o : Sorting) : Prop where
  perm : o.items.Perm origin.items
  less : o.less = origin.less
  scope : o.scope = origin.scope
  element : o.element = origin.element
  placed : 1 ≤ o.place
  /-- When no item is left to be put into its place, none is out of it. -/
  going : o.next < o.items.size ∨ o.place = o.next
  bounded : o.next ≤ max o.items.size 1
  /-- An item is compared with each of those before it at most. -/
  few : 2 * (count + o.place) ≤ o.next * (o.next + 1)

theorem swap_perm (items : Array Value) (i j : Nat) :
    (items.swapIfInBounds i j).Perm items := by
  rw [Array.swapIfInBounds_def]
  split
  · split
    · exact Array.swap_perm _ _
    · exact .rfl
  · exact .rfl

theorem comparison?_isSome {pair : Value × Value} (h : o.comparison? = some pair) :
    o.next < o.items.size := by
  unfold comparison? at h
  split at h
  · assumption
  · cases h

theorem comparison?_eq_none (h : o.comparison? = none) : o.items.size ≤ o.next := by
  unfold comparison? at h
  split at h
  · cases h
  · omega

namespace Shape

variable {origin : Sorting} {count : Nat}

theorem start (less : Value) (scope : TableRef) (element : Ty) (items : Array Value) :
    Shape (.start less scope element items) 0 (.start less scope element items) where
  perm := .rfl
  less := rfl
  scope := rfl
  element := rfl
  placed := Nat.le_refl 1
  going := .inr rfl
  bounded := Nat.le_max_right _ _
  few := Nat.le_refl 2

theorem compared (h : Shape origin count o) (more : o.next < o.items.size) (isLess : Bool) :
    Shape origin (count + 1) (o.compared isLess) := by
  obtain ⟨perm, less, scope, element, placed, going, bounded, few⟩ := h
  -- With the next item everything before it has been compared.
  have room : o.next * (o.next + 1) + 2 * (o.next + 1) = (o.next + 1) * (o.next + 1 + 1) := by ring
  unfold Sorting.compared advance
  split
  · have size := (swap_perm o.items o.place (o.place - 1)).size_eq
    dsimp only
    split
    · refine ⟨(swap_perm _ _ _).trans perm, less, scope, element, ?_, .inr rfl, ?_, ?_⟩ <;>
        dsimp only <;> omega
    · refine ⟨(swap_perm _ _ _).trans perm, less, scope, element, ?_, .inl ?_, ?_, ?_⟩ <;>
        dsimp only <;> omega
  · refine ⟨perm, less, scope, element, ?_, .inr rfl, ?_, ?_⟩ <;> dsimp only <;> omega

end Shape

variable {less : Value} {scope : TableRef} {element : Ty} {items : Array Value}

theorem Compared.shape (h : Compared way (.start less scope element items) a trace o b) :
    Shape (.start less scope element items) trace.length o := by
  induction h with
  | start => exact .start less scope element items
  | next _ pair _ ih =>
    rw [List.length_append]
    exact ih.compared (comparison?_isSome pair) _

/-- Each item is compared with each one before it once at most. -/
theorem Compared.count_le (h : Compared way (.start less scope element items) a trace o b) :
    2 * trace.length ≤ items.size * (items.size - 1) := by
  have shape := h.shape
  have size : o.items.size = items.size := shape.perm.size_eq
  have bounded := size ▸ shape.bounded
  have up {m : Nat} (small : m < max items.size 1) : m * (m + 1) ≤ items.size * (items.size - 1) := by
    rw [Nat.mul_comm]
    rcases Nat.eq_zero_or_pos items.size with none | some
    · have zero : m = 0 := by omega
      simp [zero]
    · exact Nat.mul_le_mul (by omega) (by omega)
  have few := shape.few
  have placed := shape.placed
  obtain more | finished := shape.going
  · have := up (m := o.next) (by omega)
    omega
  · obtain ⟨m, next⟩ : ∃ m, o.next = m + 1 := ⟨o.next - 1, by omega⟩
    have := up (m := m) (by omega)
    have room : (m + 1) * (m + 1 + 1) = m * (m + 1) + 2 * (m + 1) := by ring
    rw [finished, next, room] at few
    omega

/-! ## Sorting by a strict weak order -/

/-- How far a sort of some items by an order has come. -/
inductive Progress (lt : Value → Value → Bool) (original : List Value) (o : Sorting) : Prop
  /-- An item is on its way to its place among those before it: those that it has passed are
  greater. -/
  | inserting {seen rest : List Value} {v : Value} (low high : List Value)
      (whole : original = seen ++ v :: rest) (items : o.items.toList = low ++ v :: (high ++ rest))
      (next : o.next = seen.length) (place : o.place = low.length) (going : low ≠ [])
      (sorted : Stable lt seen (low ++ high)) (above : ∀ y ∈ high, lt v y = true)
  | finished (sorted : Stable lt original o.items.toList) (all : o.items.size ≤ o.next)

theorem toList_swap {items : Array Value} {low rest : List Value} {u v : Value}
    (h : items.toList = low ++ u :: v :: rest) :
    (items.swapIfInBounds (low.length + 1) low.length).toList = low ++ v :: u :: rest := by
  obtain rfl : items = (low ++ u :: v :: rest).toArray := by rw [← h]
  simp [Array.swapIfInBounds_def]

namespace Progress

variable {lt : Value → Value → Bool} {original : List Value}

/-- When some items are in order it is the turn of the one behind them. -/
theorem turn {seen done rest : List Value} (sorted : Stable lt seen done) (some : seen ≠ [])
    (whole : original = seen ++ rest) (items : o.items.toList = done ++ rest)
    (next : o.next = seen.length) (place : o.place = seen.length) : Progress lt original o := by
  have length := sorted.perm.length_eq
  cases rest with
  | nil =>
    rw [List.append_nil] at whole items
    refine .finished (whole ▸ items ▸ sorted) ?_
    rw [next, ← length, ← items, Array.length_toList]
  | cons v rest =>
    refine .inserting done [] whole items next (place.trans length.symm) ?_ ?_ (by simp)
    · rintro rfl
      exact some (List.eq_nil_of_length_eq_zero length.symm)
    · rwa [List.append_nil]

theorem start (lt : Value → Value → Bool) :
    Progress lt items.toList (.start less scope element items) := by
  rcases whole : items.toList with _ | ⟨x, rest⟩
  · have none : items = #[] := by simpa using whole
    exact .finished (by simpa [Sorting.start, none] using Stable.nil) (by simp [Sorting.start, none])
  · have single : Stable lt [x] [x] := ⟨.refl _, List.pairwise_singleton _ _, fun _ _ => rfl⟩
    exact turn single (by simp) rfl whole rfl rfl

/-- A comparison either takes the item past one more or leaves it in its place. -/
theorem compared (order : StrictWeak lt original) (h : Progress lt original o) {x y : Value}
    (pair : o.comparison? = some (x, y)) : Progress lt original (o.compared (lt x y)) := by
  cases h with
  | finished sorted all => exact absurd (comparison?_isSome pair) (by omega)
  | @inserting seen rest v low high whole items next place going sorted above =>
    obtain ⟨low, u, rfl⟩ : ∃ l u, low = l ++ [u] :=
      ⟨_, _, (List.dropLast_append_getLast going).symm⟩
    simp only [List.append_assoc, List.singleton_append] at items sorted
    have known : StrictWeak lt (seen ++ [v]) := order.mono fun z mem => by
      simp only [whole, List.mem_append, List.mem_cons] at mem ⊢
      tauto
    have behind : original = (seen ++ [v]) ++ rest := by simp [whole]
    have length : (seen ++ [v]).length = o.next + 1 := by simp [next]
    obtain ⟨rfl, rfl⟩ : x = v ∧ y = u := by
      have array : o.items = (low ++ u :: v :: (high ++ rest)).toArray := by rw [← items]
      unfold comparison? at pair
      split at pair
      · simp only [array, place, List.length_append, List.length_singleton, Option.some.injEq,
          Prod.mk.injEq] at pair
        simpa using And.intro pair.1.symm pair.2.symm
      · cases pair
    cases less : lt x y with
    | true =>
      have passed : ∀ z ∈ y :: high, lt x z = true := by simpa [less] using above
      have swapped := toList_swap items
      cases low with
      | nil =>
        have done := Stable.insert [] (y :: high) known sorted passed (by simp)
        refine turn done (by simp) behind ?_ ?_ ?_
        · simpa [Sorting.compared, advance, place] using swapped
        · simp [Sorting.compared, advance, place, next]
        · simp [Sorting.compared, advance, place, next]
      | cons z low =>
        refine .inserting (z :: low) (y :: high) whole ?_ ?_ ?_ (by simp) sorted passed
        · simpa [Sorting.compared, place] using swapped
        · simpa [Sorting.compared, place] using next
        · simp [Sorting.compared, place]
    | false =>
      have below := sorted.not_less known (fun _ => List.mem_append_left _) (by simp) less
      have done := Stable.insert (low ++ [y]) high known (by simpa using sorted) above below
      refine turn done (by simp) behind ?_ length.symm length.symm
      simpa [Sorting.compared, advance] using items

end Progress

theorem Compared.progress {lt : Value → Value → Bool} (order : StrictWeak lt items.toList)
    (h : Compared way (.start less scope element items) a trace o b)
    (pure : ∀ made ∈ trace, made.isLess = lt made.left made.right) :
    Progress lt items.toList o := by
  induction h with
  | start => exact .start lt
  | @next _ _ _ _ x y v _ pair _ ih =>
    have said : v.isTruthy = lt x y := pure ⟨x, y, v.isTruthy⟩ (by simp)
    rw [said]
    exact (ih fun made mem => pure made (List.mem_append_left _ mem)).compared order pair

/-- A sort that has nothing to compare any more has sorted the items stably, if its comparisons
were those of a strict weak order. -/
theorem Compared.stable {lt : Value → Value → Bool} (order : StrictWeak lt items.toList)
    (h : Compared way (.start less scope element items) a trace o b)
    (pure : ∀ made ∈ trace, made.isLess = lt made.left made.right) (finished : o.comparison? = none) :
    Stable lt items.toList o.items.toList := by
  cases h.progress order pure with
  | finished sorted _ => exact sorted
  | inserting _ _ whole _ next =>
    have size : o.items.size = items.size := h.shape.perm.size_eq
    have length := congrArg List.length whole
    have all := comparison?_eq_none finished
    simp only [Array.length_toList, List.length_append, List.length_cons] at length
    omega

end StackScript.Sorting
