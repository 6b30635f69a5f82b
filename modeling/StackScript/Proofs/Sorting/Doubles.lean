import Mathlib.Algebra.Ring.Nat
import StackScript.Value

/-!
# Whole numbers as doubles

A double has 53 binary digits. A whole number that has no more of them is the value of a double: its
mantissa is the number, shifted until it has all the digits, and its exponent says how far. Such
doubles are in the order of the numbers.

Main statements: `unpack_pack` (a number with all its digits survives the encoding) and
`nearestFloat_lt` (the doubles of whole numbers below `2 ^ 53` are in their order).
-/
namespace StackScript.Doubles

open Float.Model Float.Model.UnpackedFloat

/-! ## Digits -/

/-- The mantissa of a positive number: its digits, as many as a double has. -/
def mantissa (m : Nat) : Nat := m * 2 ^ (52 - m.log2)

variable {m n : Nat}

theorem log2_le (small : m < 2 ^ 53) : m.log2 ≤ 52 := by
  by_cases none : m = 0
  · simp [none]
  · exact Nat.le_of_lt_succ ((Nat.log2_lt none).2 small)

theorem mantissa_pos (pos : 0 < m) : 0 < mantissa m := Nat.mul_pos pos (Nat.two_pow_pos _)

theorem log2_mantissa (pos : 0 < m) (small : m < 2 ^ 53) : (mantissa m).log2 = 52 := by
  obtain ⟨low, high⟩ := (Nat.log2_eq_iff (Nat.ne_of_gt pos)).1 (rfl : m.log2 = m.log2)
  have lower := Nat.mul_le_mul_right (2 ^ (52 - m.log2)) low
  have upper := Nat.mul_lt_mul_of_pos_right high (Nat.two_pow_pos (52 - m.log2))
  have le := log2_le small
  rw [← Nat.pow_add, show m.log2 + (52 - m.log2) = 52 by omega] at lower
  rw [← Nat.pow_add, show m.log2 + 1 + (52 - m.log2) = 53 by omega] at upper
  exact (Nat.log2_eq_iff (Nat.ne_of_gt (mantissa_pos pos))).2 ⟨lower, upper⟩

theorem lt_of_log2_lt (hn : 0 < n) (fewer : m.log2 < n.log2) : m < n :=
  calc m < 2 ^ (m.log2 + 1) := Nat.lt_log2_self
    _ ≤ 2 ^ n.log2 := Nat.pow_le_pow_right (by decide) fewer
    _ ≤ n := Nat.log2_self_le (Nat.ne_of_gt hn)

/-- Of two numbers the one with more digits is the greater; if they have as many, the mantissas
decide. -/
theorem compare_digits (hm : 0 < m) (hn : 0 < n) :
    (compare ((m.log2 : Int) - 52) (n.log2 - 52)).then (compare (mantissa m) (mantissa n)) =
      compare m n := by
  rcases Nat.lt_trichotomy m.log2 n.log2 with fewer | same | more
  · rw [Int.compare_eq_lt.2 (by omega), Nat.compare_eq_lt.2 (lt_of_log2_lt hn fewer)]
    rfl
  · have scale := Nat.two_pow_pos (52 - n.log2)
    rw [same, Int.compare_eq_eq.2 rfl, Ordering.then, mantissa, mantissa, same]
    rcases Nat.lt_trichotomy m n with less | rfl | greater
    · rw [Nat.compare_eq_lt.2 less, Nat.compare_eq_lt.2 (Nat.mul_lt_mul_of_pos_right less scale)]
    · rw [Nat.compare_eq_eq.2 rfl, Nat.compare_eq_eq.2 rfl]
    · rw [Nat.compare_eq_gt.2 greater, Nat.compare_eq_gt.2 (Nat.mul_lt_mul_of_pos_right greater scale)]
  · rw [Int.compare_eq_gt.2 (by omega), Nat.compare_eq_gt.2 (lt_of_log2_lt hm more)]
    rfl

/-! ## Rounding -/

theorem targetExponent_of_total {k : Nat} (le : k ≤ 52) (total : Int) (h : total = k + 1) :
    Format.binary64.targetExponent total = k - 52 := by
  change max (total - 53) (-1074) = k - 52
  omega

/-- A mantissa with all its digits is not shifted. -/
theorem shift_full {k M : Nat} (le : k ≤ 52) (full : M.log2 = 52) :
    shiftToTargetExponent .binary64 M (k - 52) .exact = (⟨M, false, false⟩, (k : Int) - 52) := by
  have target := targetExponent_of_total le (totalExponent M (k - 52)) <| by
    simp only [totalExponent, full]
    omega
  simp [shiftToTargetExponent, shiftToExponent, target, ExtendedMantissa.ofMantissaAndAccuracy,
    HShiftRight.hShiftRight, Nat.repeat]

/-- A mantissa with all its digits is not rounded. -/
theorem round_full {k M : Nat} (s : Sign) (le : k ≤ 52) (full : M.log2 = 52) (pos : 0 < M) :
    roundWithAccuracy .binary64 s M (k - 52) .exact = .finite s M (k - 52) pos := by
  have shift := shift_full le full
  have rounded : ExtendedMantissa.roundedMantissa ⟨M, false, false⟩ = M := rfl
  rw [roundWithAccuracy, shift]
  dsimp only
  rw [rounded, shift]
  exact dif_neg (Nat.ne_of_gt pos)

theorem round_whole (s : Sign) (pos : 0 < m) (small : m < 2 ^ 53) :
    UnpackedFloat.round .binary64 s m 0 = .finite s (mantissa m) (m.log2 - 52) (mantissa_pos pos) := by
  have le := log2_le small
  have target := targetExponent_of_total le (totalExponent m 0) (by simp [totalExponent])
  have amount : ((0 : Int) - (m.log2 - 52)).toNat = 52 - m.log2 := by omega
  have exponent : (0 : Int) - ((52 - m.log2 : Nat) : Int) = m.log2 - 52 := by omega
  have digits : m <<< (52 - m.log2) = mantissa m := Nat.shiftLeft_eq _ _
  rw [UnpackedFloat.round, target, decreaseExponent]
  dsimp only
  rw [amount, exponent, digits]
  exact round_full s le (log2_mantissa pos small) (mantissa_pos pos)

/-! ## Encoding -/

theorem unpackSign_packComponents {spec : Format} {s : Sign} {exponent : BitVec spec.exponentBits}
    {digits : BitVec spec.mantissaBitsWithoutImplicit} :
    unpackSign (packComponents spec s exponent digits) = s.toBitVec := by
  ext i hi
  obtain rfl : i = 0 := by omega
  delta unpackSign
  simp [packComponents, BitVec.getLsbD_eq_getElem, BitVec.getLsbD_append, BitVec.getElem_append]

theorem ofBitVec_toBitVec (s : Sign) : Sign.ofBitVec s.toBitVec = s := by cases s <;> rfl

theorem finite_congr {s t : Sign} {m n : Nat} {e f : Int} {hm : 0 < m} {hn : 0 < n} (sign : s = t)
    (digits : m = n) (exponent : e = f) : UnpackedFloat.finite s m e hm = .finite t n f hn := by
  subst sign digits exponent
  rfl

/-- A number with all its digits, and an exponent that is not too great, survives the encoding. -/
theorem unpack_pack {s : Sign} {M biased : Nat} (pos : 0 < M) (full : M.log2 = 52)
    (some : 0 < biased) (room : biased < 2 ^ 11 - 1) :
    (Float.Model.pack (.finite s M (biased - 1075) pos)).unpack =
      .finite s M (biased - 1075) pos := by
  obtain ⟨lower, upper⟩ := (Nat.log2_eq_iff (Nat.ne_of_gt pos)).1 full
  have bias : ((biased : Int) - 1075 + Format.binary64.exponentBias + (52 : Nat)).toNat = biased := by
    simp only [Format.exponentBias]
    omega
  have packed : UnpackedFloat.pack .binary64 (.finite s M (biased - 1075) pos) =
      packComponents .binary64 s (BitVec.ofNat 11 biased) (BitVec.ofNat 52 M) := by
    change (if 2 ^ 11 ≤ ((biased : Int) - 1075 + Format.binary64.exponentBias + (52 : Nat)).toNat + 1
      then _ else if M.log2 + 1 = 53 then packComponents .binary64 s (BitVec.ofNat 11 _) _ else _) = _
    rw [bias, if_neg (by omega), if_pos (by rw [full])]
  have value : (BitVec.ofNat 11 biased).toNat = biased := by
    rw [BitVec.toNat_ofNat, Nat.mod_eq_of_lt (by omega)]
  have notLast : BitVec.ofNat 11 biased ≠ -1#11 := by
    intro last
    have := congrArg BitVec.toNat last
    simp only [value, BitVec.reduceNeg, BitVec.reduceToNat] at this
    omega
  have notFirst : BitVec.ofNat 11 biased ≠ 0#11 := by
    intro first
    have := congrArg BitVec.toNat first
    simp only [value, BitVec.reduceToNat] at this
    omega
  -- The first digit is not written; decoding puts it back.
  have digits : (1#1 ++ BitVec.ofNat 52 M).toNat = M := by
    rw [BitVec.toNat_append, ← Nat.shiftLeft_add_eq_or_of_lt (BitVec.isLt _), BitVec.toNat_ofNat,
      BitVec.toNat_ofNat]
    omega
  have exponent : ((BitVec.ofNat 11 biased).toNat : Int) -
      (Format.binary64.exponentBias + (52 : Nat)) = biased - 1075 := by
    rw [value]
    simp only [Format.exponentBias]
    omega
  change UnpackedFloat.unpack .binary64 (UnpackedFloat.pack .binary64 _) = _
  rw [packed]
  delta UnpackedFloat.unpack
  dsimp only
  rw [unpackExponent_packComponents, if_neg notLast, if_neg notFirst]
  refine finite_congr ?_ ?_ exponent
  · rw [unpackSign_packComponents, ofBitVec_toBitVec]
  · rw [unpackMantissa_packComponents]
    exact digits

/-! ## Whole numbers -/

/-- A number as a double: a sign and the digits of its magnitude. -/
def exactly : Int → UnpackedFloat
  | .ofNat 0 => .zero .positive
  | .ofNat (m + 1) =>
    .finite .positive (mantissa (m + 1)) ((m + 1).log2 - 52) (mantissa_pos (Nat.succ_pos m))
  | .negSucc m =>
    .finite .negative (mantissa (m + 1)) ((m + 1).log2 - 52) (mantissa_pos (Nat.succ_pos m))

theorem unpack_round (s : Sign) (pos : 0 < m) (small : m < 2 ^ 53) :
    (Float.Model.pack (UnpackedFloat.round .binary64 s m 0)).unpack =
      .finite s (mantissa m) (m.log2 - 52) (mantissa_pos pos) := by
  have le := log2_le small
  have exponent : (m.log2 : Int) - 52 = (m.log2 + 1023 : Nat) - 1075 := by omega
  rw [round_whole s pos small, exponent]
  exact unpack_pack _ (log2_mantissa pos small) (by omega) (by omega)

theorem unpack_ofInt {n : Int} (small : n.natAbs < 2 ^ 53) :
    (Float.Model.pack (UnpackedFloat.ofInt .binary64 n)).unpack = exactly n := by
  cases n with
  | ofNat m =>
    cases m with
    | zero => rfl
    | succ m => exact unpack_round .positive (Nat.succ_pos m) small
  | negSucc m =>
    rw [UnpackedFloat.ofInt, UnpackedFloat.normalize, Int.compare_eq_lt.2 (Int.negSucc_lt_zero m)]
    exact unpack_round .negative (Nat.succ_pos m) small

theorem compare_natCast (m n : Nat) : compare (m : Int) n = compare m n := by
  simp only [Int.compare_eq_ite_lt, Nat.compare_eq_ite_lt, Int.ofNat_lt]

theorem compare_negSucc (m n : Nat) : compare (Int.negSucc m) (.negSucc n) = compare (n + 1) (m + 1) := by
  have less (m n : Nat) : Int.negSucc m < .negSucc n ↔ n + 1 < m + 1 := by omega
  simp only [Int.compare_eq_ite_lt, Nat.compare_eq_ite_lt, less]

theorem negSucc_lt_natCast (m n : Nat) : Int.negSucc m < n := by omega

/-- Doubles that whole numbers are exactly are in the order of the numbers. -/
theorem compare_exactly : (m n : Int) → (exactly m).compare (exactly n) = some (compare m n)
  | .ofNat 0, .ofNat 0 => rfl
  | .ofNat 0, .ofNat (n + 1) => congrArg some (Int.compare_eq_lt.2 (Int.natCast_pos.2 (Nat.succ_pos n))).symm
  | .ofNat 0, .negSucc n => congrArg some (Int.compare_eq_gt.2 (Int.negSucc_lt_zero n)).symm
  | .ofNat (m + 1), .ofNat 0 =>
    congrArg some (Int.compare_eq_gt.2 (Int.natCast_pos.2 (Nat.succ_pos m))).symm
  | .negSucc m, .ofNat 0 => congrArg some (Int.compare_eq_lt.2 (Int.negSucc_lt_zero m)).symm
  | .ofNat (m + 1), .negSucc n => congrArg some (Int.compare_eq_gt.2 (negSucc_lt_natCast _ _)).symm
  | .negSucc m, .ofNat (n + 1) => congrArg some (Int.compare_eq_lt.2 (negSucc_lt_natCast _ _)).symm
  | .ofNat (m + 1), .ofNat (n + 1) => by
    have digits := compare_digits (Nat.succ_pos m) (Nat.succ_pos n)
    exact congrArg some (digits.trans (compare_natCast (m + 1) (n + 1)).symm)
  | .negSucc m, .negSucc n => by
    have digits := compare_digits (Nat.succ_pos m) (Nat.succ_pos n)
    rw [compare_negSucc, ← Nat.compare_swap, ← digits]
    rfl

end StackScript.Doubles

namespace StackScript.Value

open Doubles

/-- The doubles of whole numbers with no more digits than doubles have are in the order of the
numbers. -/
theorem nearestFloat_lt {x y : Int64} (hx : x.toInt.natAbs < 2 ^ 53) (hy : y.toInt.natAbs < 2 ^ 53) :
    nearestFloat x < nearestFloat y ↔ x.toInt < y.toInt := by
  have decoded (n : Int64) : (nearestFloat n).toModel.unpack =
      (Float.Model.pack (Float.Model.UnpackedFloat.ofInt .binary64 n.toInt)).unpack := rfl
  have less : nearestFloat x < nearestFloat y ↔
      (nearestFloat x).toModel.unpack.lt (nearestFloat y).toModel.unpack = true := decide_eq_true_iff
  rw [less, decoded, decoded, unpack_ofInt hx, unpack_ofInt hy, Float.Model.UnpackedFloat.lt,
    compare_exactly, ← Int.compare_eq_lt]
  simp

end StackScript.Value
