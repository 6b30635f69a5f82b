import StackScript.Proofs.WholeNumbers
import StackScript.Proofs.Sorting.Insertion
import StackScript.Proofs.Sorting.Doubles

/-!
# Builtins that order

Sorting without a comparator and the extremes of the package of mathematics compare numbers as
doubles, the operators of the language compare whole numbers as such. The two orders are the same
for whole numbers that have no more digits than doubles; of greater numbers some neighbours are the
same double.

Main statements: `RootFn.sortItems_sorted` and `MathFn.extremeFrom_best` (what the builtins do, by
any key that the comparisons go by), `ordering_agrees` and `neighbours_unsorted`.
-/
namespace StackScript

/-! ## Sorting by a key -/

namespace RootFn

variable {le : Value → Value → Bool} {key : Value → Int} {items : List Value}

theorem insertReversed_perm (v : Value) (sorted : List Value) :
    (insertReversed le v sorted).Perm (v :: sorted) := by
  induction sorted with
  | nil => exact .refl _
  | cons x rest ih =>
    unfold insertReversed
    split
    · exact .refl _
    · exact (ih.cons x).trans (.swap v x rest)

theorem insertReversed_sorted {v : Value} {sorted : List Value}
    (byKey : ∀ x ∈ sorted, le x v = decide (key x ≤ key v))
    (h : sorted.Pairwise fun x y => key y ≤ key x) :
    (insertReversed le v sorted).Pairwise fun x y => key y ≤ key x := by
  induction sorted with
  | nil => exact List.pairwise_singleton _ _
  | cons x rest ih =>
    obtain ⟨greatest, others⟩ := List.pairwise_cons.1 h
    have known := byKey x List.mem_cons_self
    unfold insertReversed
    split
    · next inOrder =>
      have below : key x ≤ key v := by simpa [known] using inOrder
      refine List.pairwise_cons.2 ⟨fun y mem => ?_, h⟩
      rcases List.mem_cons.1 mem with rfl | mem
      · exact below
      · exact (greatest y mem).trans below
    · next notInOrder =>
      have above : key v ≤ key x := by
        have := by simpa [known] using notInOrder
        omega
      refine List.pairwise_cons.2 ⟨fun y mem => ?_, ih (fun y mem => byKey y (.tail x mem)) others⟩
      rcases List.mem_cons.1 ((insertReversed_perm v rest).mem_iff.1 mem) with rfl | mem
      · exact above
      · exact greatest y mem

theorem insertionSort_sorted (byKey : ∀ x ∈ items, ∀ y ∈ items, le x y = decide (key x ≤ key y)) :
    (insertionSort le items).Perm items ∧
      (insertionSort le items).Pairwise fun x y => key x ≤ key y := by
  -- What is left is inserted into what is sorted already, the greatest item first.
  have main (rest done : List Value) (sub : ∀ x ∈ rest ++ done, x ∈ items)
      (h : done.Pairwise fun x y => key y ≤ key x) :
      (rest.foldl (fun done v => insertReversed le v done) done).Perm (rest ++ done) ∧
        (rest.foldl (fun done v => insertReversed le v done) done).Pairwise
          fun x y => key y ≤ key x := by
    induction rest generalizing done with
    | nil => exact ⟨.refl _, h⟩
    | cons v rest ih =>
      have inserted : (insertReversed le v done).Perm (v :: done) := insertReversed_perm v done
      have place : (rest ++ insertReversed le v done).Perm (v :: rest ++ done) :=
        (inserted.append_left rest).trans List.perm_middle
      obtain ⟨perm, sorted⟩ := ih (insertReversed le v done) (fun x mem => sub x (place.mem_iff.1 mem)) <|
        insertReversed_sorted (fun x mem => byKey x (sub x (by simp [mem])) v (sub v (by simp))) h
      exact ⟨perm.trans place, sorted⟩
  obtain ⟨perm, sorted⟩ := main items [] (by simp) .nil
  rw [List.append_nil] at perm
  exact ⟨(List.reverse_perm _).trans perm, List.pairwise_reverse.2 sorted⟩

/-- Items that are compared by a key are sorted by it. -/
theorem sortItems_sorted {s : Store}
    (byKey : ∀ x ∈ items, ∀ y ∈ items, inOrder s x y = decide (key x ≤ key y)) :
    (sortItems s items).Perm items ∧ (sortItems s items).Pairwise fun x y => key x ≤ key y := by
  unfold sortItems
  split
  · exact insertionSort_sorted byKey
  · have same := List.map_mergeSort (f := id) fun x hx y hy => (byKey x hx y hy).symm
    simp only [List.map_id] at same
    rw [← same]
    refine ⟨List.mergeSort_perm _ _, ?_⟩
    have sorted : (items.mergeSort fun x y => decide (key x ≤ key y)).Pairwise
        fun x y => decide (key x ≤ key y) = true :=
      List.pairwise_mergeSort (fun x y z => by simpa using Int.le_trans)
        (fun x y => by simpa using Int.le_total (key x) (key y)) items
    simpa using sorted

end RootFn

/-! ## Extremes by a key -/

namespace MathFn

/-- Of values that are compared by a key the first one with the least key is found. -/
theorem extremeFrom_best {better : Float → Float → Bool} {key : Value → Int} {double : Value → Float}
    {values : List Value} {best : Value} (numbers : ∀ v ∈ values, numberOf v = pure (double v))
    (byKey : ∀ x ∈ best :: values, ∀ y ∈ best :: values,
      better (double x) (double y) = decide (key x < key y)) (w : World) (s : Store) :
    ∃ v ∈ best :: values,
      extremeFrom better (some (best, double best)) values w s = ((.ok v, w), s) ∧
        ∀ u ∈ best :: values, key v ≤ key u := by
  induction values generalizing best with
  | nil => exact ⟨best, List.mem_cons_self, rfl, by simp⟩
  | cons x rest ih =>
    have reads := numbers x List.mem_cons_self
    have known := byKey x (by simp) best (by simp)
    have later := fun v mem => numbers v (List.mem_cons_of_mem x mem)
    simp only [extremeFrom, reads, pure_bind, known, decide_eq_true_eq]
    split
    · next less =>
      obtain ⟨v, mem, found, least⟩ := ih later fun y hy z hz =>
        byKey y (List.mem_cons_of_mem _ hy) z (List.mem_cons_of_mem _ hz)
      refine ⟨v, List.mem_cons_of_mem _ mem, found, fun u hu => ?_⟩
      rcases List.mem_cons.1 hu with rfl | hu
      · exact (least x List.mem_cons_self).trans less.le
      · exact least u hu
    · next notLess =>
      have sub {y : Value} (hy : y ∈ best :: rest) : y ∈ best :: x :: rest := by
        rcases List.mem_cons.1 hy with rfl | hy
        · exact List.mem_cons_self
        · exact List.mem_cons_of_mem _ (List.mem_cons_of_mem _ hy)
      obtain ⟨v, mem, found, least⟩ := ih later fun y hy z hz => byKey y (sub hy) z (sub hz)
      refine ⟨v, sub mem, found, fun u hu => ?_⟩
      rcases List.mem_cons.1 hu with rfl | hu
      · exact least u List.mem_cons_self
      · rcases List.mem_cons.1 hu with rfl | hu
        · exact (least best List.mem_cons_self).trans (not_lt.1 notLess)
        · exact least u (List.mem_cons_of_mem _ hu)

end MathFn

/-! ## Whole numbers of one kind -/

/-- A whole number of a kind that has no more digits than doubles have. -/
structure Value.Short (k : Kind) (v : Value) : Prop where
  kind : v.kind = k
  integer : k.isInteger = true
  small : v.number.natAbs < 2 ^ 53

namespace Value.Short

variable {k : Kind} {v w : Value}

theorem eq_of_number (hv : v.Short k) (hw : w.Short k) (same : v.number = w.number) : v = w := by
  obtain ⟨rfl, integer, -⟩ := hv
  obtain ⟨kind, -, -⟩ := hw
  cases v <;> cases integer <;> cases w <;> cases kind
  · simp only [number_byte, Int.natCast_inj, UInt8.toNat_inj] at same
    rw [same]
  · simp only [number_int32, Int32.toInt_inj] at same
    rw [same]
  · exact congrArg Value.int (Int64.toInt_inj.1 same)
  · exact congrArg Value.int64 (Int64.toInt_inj.1 same)

/-- The operators go by the numbers. -/
theorem order? (hv : v.Short k) (hw : w.Short k) :
    Operator.order? v w = some (compare v.number w.number) := by
  obtain ⟨rfl, integer, -⟩ := hv
  obtain ⟨kind, -, -⟩ := hw
  cases v <;> cases integer <;> cases w <;> cases kind <;> rfl

theorem nearestFloat_lt (hv : v.Short k) (hw : w.Short k) :
    nearestFloat v.whole < nearestFloat w.whole ↔ v.number < w.number :=
  Value.nearestFloat_lt hv.small hw.small

theorem inOrder (hv : v.Short k) (hw : w.Short k) (s : Store) :
    RootFn.inOrder s v w = decide (v.number ≤ w.number) := by
  have doubles : RootFn.inOrder s v w = !decide (nearestFloat w.whole < nearestFloat v.whole) := by
    obtain ⟨rfl, integer, -⟩ := hv
    obtain ⟨kind, -, -⟩ := hw
    cases v <;> cases integer <;> cases w <;> cases kind <;> rfl
  rw [doubles, decide_eq_decide.2 (hw.nearestFloat_lt hv), ← decide_not, decide_eq_decide.2 not_lt]

theorem numberOf (h : v.Short k) : MathFn.numberOf v = pure (nearestFloat v.whole) := by
  obtain ⟨rfl, integer, -⟩ := h
  cases v <;> first
    | rfl
    | cases integer

/-- What the operator `<` answers. -/
theorem ordered (hv : v.Short k) (hw : w.Short k) (s : Store) :
    Operator.ordered (· == .lt) v w s = (.ok (.bool (decide (v.number < w.number))), s) := by
  have less : (compare v.number w.number == .lt) = decide (v.number < w.number) := by
    rw [Bool.eq_iff_iff, beq_iff_eq, compare_lt_iff_lt, decide_eq_true_iff]
  rw [Operator.ordered, order? hv hw, ← less]
  rfl

end Value.Short

/-! ## The order of the language -/

/-- Whether a value comes before another one by the operators. -/
def Operator.precedes (v w : Value) : Bool := Operator.order? v w == some .lt

theorem Operator.precedes_of_ordered {v w : Value} {b : Bool} {s s' : Store}
    (h : Operator.ordered (· == .lt) v w s = (.ok (.bool b), s')) : precedes v w = b := by
  rw [Operator.ordered] at h
  rw [precedes]
  rcases order : order? v w with _ | o <;> rw [order] at h <;> cases h
  rfl

section

variable {k : Kind} {items : List Value}

theorem Value.Short.precedes {v w : Value} (hv : v.Short k) (hw : w.Short k) :
    Operator.precedes v w = decide (v.number < w.number) :=
  Operator.precedes_of_ordered (hv.ordered hw {})

theorem precedes_strictWeak (short : ∀ v ∈ items, v.Short k) :
    StrictWeak Operator.precedes items where
  irrefl x hx := by simp [(short x hx).precedes (short x hx)]
  trans x hx y hy z hz := by
    rw [(short x hx).precedes (short y hy), (short y hy).precedes (short z hz),
      (short x hx).precedes (short z hz)]
    simp only [decide_eq_true_eq]
    omega
  splits x hx y hy z hz := by
    rw [(short x hx).precedes (short y hy), (short y hy).precedes (short z hz),
      (short x hx).precedes (short z hz)]
    simp only [decide_eq_true_eq]
    omega

/-- There is one way to sort whole numbers, and sorting without a comparator finds it. -/
theorem sortItems_eq (short : ∀ v ∈ items, v.Short k) (s : Store) {sorted : List Value}
    (h : Stable Operator.precedes items sorted) : sorted = RootFn.sortItems s items := by
  obtain ⟨perm, byNumber⟩ := RootFn.sortItems_sorted fun v hv w hw => (short v hv).inOrder (short w hw) s
  have known {v : Value} (mem : v ∈ sorted) : v.Short k := short v (h.perm.mem_iff.1 mem)
  have ordered : sorted.Pairwise fun v w => v.number ≤ w.number := by
    refine h.ordered.imp_of_mem fun {v w} hv hw notGreater => ?_
    rw [(known hw).precedes (known hv)] at notGreater
    simpa using notGreater
  refine List.Perm.eq_of_pairwise (fun v w hv hw le ge => ?_) ordered byNumber (h.perm.trans perm.symm)
  exact (known hv).eq_of_number (short w (perm.mem_iff.1 hw)) (le_antisymm le ge)

end

section

variable {k : Kind}

theorem extreme_found (better : Float → Float → Bool) (key : Value → Int) {items : List Value}
    (short : ∀ v ∈ items, v.Short k) (some : items ≠ [])
    (byKey : ∀ v ∈ items, ∀ u ∈ items,
      better (Value.nearestFloat v.whole) (Value.nearestFloat u.whole) = decide (key v < key u))
    (w : World) (s : Store) :
    ∃ v ∈ items, MathFn.extremeFrom better none items w s = ((.ok v, w), s) ∧
      ∀ u ∈ items, key v ≤ key u := by
  obtain ⟨first, rest, rfl⟩ := List.exists_cons_of_ne_nil some
  have begins := (short first List.mem_cons_self).numberOf
  simp only [MathFn.extremeFrom, begins, pure_bind]
  exact MathFn.extremeFrom_best (fun v mem => (short v (List.mem_cons_of_mem _ mem)).numberOf) byKey w s

/-- For whole numbers of one kind, none with more digits than doubles have, sorting gives what
sorting by `<` gives, the least number is one that no other is `<` to, and the greatest one is not
`<` any other. -/
theorem ordering_agrees {r : ArrayRef} {s : Store} (short : ∀ v ∈ (s.array r).items, v.Short k)
    (caller : TableRef) (receiver : Option Value) (multiple : Bool) (w : World) :
    let a := s.array r
    let call : NativeCall := ⟨caller, receiver, multiple, [.array r]⟩
    (∃ sorted : Array Value,
      RootFn.run .sort call w s =
        ((.ok (.value (.array (s.newArray { element := a.element, items := sorted }).1)), w),
          (s.newArray { element := a.element, items := sorted }).2) ∧
      ∀ {σ : Type} {way : Sorting.Way σ} {less scope x trace o y},
        Sorting.Compared way (.start less scope a.element a.items) x trace o y →
          o.comparison? = none →
          (∀ made ∈ trace, ∃ s' s'', Operator.ordered (· == .lt) made.left made.right s' =
            (.ok (.bool made.isLess), s'')) → o.items = sorted) ∧
    (a.items ≠ #[] →
      (∃ v ∈ a.items, MathFn.run .min call w s = ((.ok v, w), s) ∧
        ∀ u ∈ a.items, ∀ s', Operator.ordered (· == .lt) u v s' = (.ok (.bool false), s')) ∧
      ∃ v ∈ a.items, MathFn.run .max call w s = ((.ok v, w), s) ∧
        ∀ u ∈ a.items, ∀ s', Operator.ordered (· == .lt) v u s' = (.ok (.bool false), s')) := by
  have known : ∀ v ∈ (s.array r).items.toList, v.Short k := fun v mem => short v (Array.mem_toList_iff.1 mem)
  refine ⟨⟨(RootFn.sortItems s (s.array r).items.toList).toArray, rfl, ?_⟩, fun some => ⟨?_, ?_⟩⟩
  · intro σ way less scope x trace o y made finished answers
    have precedes : ∀ made ∈ trace, made.isLess = Operator.precedes made.left made.right :=
      fun c mem => by
        obtain ⟨s', s'', answer⟩ := answers c mem
        exact (Operator.precedes_of_ordered answer).symm
    have sorted := made.stable (precedes_strictWeak known) precedes finished
    rw [← sortItems_eq known s sorted]
  · obtain ⟨v, mem, found, least⟩ := extreme_found (fun x y => x < y) Value.number known
      (by simpa using some) (fun v hv u hu => decide_eq_decide.2 ((known v hv).nearestFloat_lt (known u hu)))
      w s
    refine ⟨v, Array.mem_toList_iff.1 mem, found, fun u hu s' => ?_⟩
    rw [(short u hu).ordered (known v mem), decide_eq_false (not_lt.2 (least u (Array.mem_toList_iff.2 hu)))]
  · obtain ⟨v, mem, found, greatest⟩ := extreme_found (fun x y => y < x) (-·.number) known
      (by simpa using some) (fun v hv u hu => decide_eq_decide.2 <| by
        rw [(known u hu).nearestFloat_lt (known v hv), neg_lt_neg_iff])
      w s
    refine ⟨v, Array.mem_toList_iff.1 mem, found, fun u hu s' => ?_⟩
    have le := neg_le_neg_iff.1 (greatest u (Array.mem_toList_iff.2 hu))
    rw [(known v mem).ordered (short u hu), decide_eq_false (not_lt.2 le)]

end

/-- A store with an array of two numbers. -/
def couple (x y : Int64) : Store :=
  (({} : Store).newArray { element := .interface, items := #[.int x, .int y] }).2

theorem couple_ordered :
    (∀ v ∈ ((couple 2 1).array ⟨0⟩).items, v.Short .int) ∧
    ∃ sorted : Array Value,
      RootFn.run .sort ⟨⟨0⟩, none, false, [.array ⟨0⟩]⟩ {} (couple 2 1) =
        ((.ok (.value (.array ⟨1⟩)), {}),
          ((couple 2 1).newArray { element := .interface, items := sorted }).2) ∧
      #[.int 1, .int 2] = sorted := by
  have short : ∀ v ∈ ((couple 2 1).array ⟨0⟩).items, v.Short .int := by
    intro v mem
    obtain rfl | rfl : v = .int 2 ∨ v = .int 1 := by simpa [couple, Store.newArray, Store.array] using mem
    · exact ⟨rfl, rfl, by decide⟩
    · exact ⟨rfl, rfl, by decide⟩
  -- The comparisons are made by the operator itself.
  let way : Sorting.Way Unit := fun _ _ x y result _ =>
    (Operator.ordered (· == .lt) x y {}).1 = result
  obtain ⟨sorted, ran, alike⟩ := (ordering_agrees short ⟨0⟩ none false {}).1
  have made : Sorting.Compared way (.start .nil ⟨0⟩ .interface #[.int 2, .int 1]) () _ _ () :=
    .next .start rfl rfl
  refine ⟨short, sorted, ran, alike made rfl fun c mem => ⟨{}, {}, ?_⟩⟩
  obtain rfl := List.mem_singleton.1 mem
  rfl

/-- Two neighbours that are the same double are left as they are, though by `<` the second one is
less, and the first one is taken for the least. -/
theorem neighbours_unsorted :
    let s := couple 9007199254740993 9007199254740992
    let call : NativeCall := ⟨⟨0⟩, none, false, [.array ⟨0⟩]⟩
    Operator.ordered (· == .lt) (.int 9007199254740992) (.int 9007199254740993) s =
        (.ok (.bool true), s) ∧
      RootFn.run .sort call {} s = ((.ok (.value (.array ⟨1⟩)), {}), (s.newArray (s.array ⟨0⟩)).2) ∧
      MathFn.run .min call {} s = ((.ok (.int 9007199254740993), {}), s) :=
  ⟨rfl, rfl, rfl⟩

end StackScript
