import Mathlib.Algebra.Order.Ring.Int
import Mathlib.Data.Int.ModEq
import StackScript.Proofs.Expressions.Compiled

/-!
# Whole numbers modulo their width

A value of an integer kind is a number modulo two to the width of the kind. Operators work on 64 bits
and cut the result down to the kind, which is sound for what is computed modulo 2 ^ 64: powers by
squaring and shifts to the left. A shift to the right is one to the left by the negated count.

Main statements: `Operation.power_reduces` (a power is exact unless the exponent passes 32 bits or the
base is minus one) and `compileExpression_shifts` (what compiled shifts come to).
-/
namespace StackScript

/-! ## Numbers and kinds -/

/-- How many bits the numbers of an integer kind have. -/
def Kind.width : Kind → Nat
  | .byte => 8
  | .int32 => 32
  | _ => 64

/-- The value of an integer kind that is a number modulo the width of the kind. -/
def Kind.reduce (k : Kind) (n : Int) : Value :=
  match k with
  | .byte => .byte (.ofInt n)
  | .int32 => .int32 (.ofInt n)
  | .int64 => .int64 (.ofInt n)
  | _ => .int (.ofInt n)

/-- The whole number that an operator takes a value for. -/
def Value.whole (v : Value) : Int64 := v.asInt?.getD 0

/-- The number that a value of an integer kind is. -/
def Value.number (v : Value) : Int := v.whole.toInt

@[simp] theorem Value.number_byte (n : UInt8) : (Value.byte n).number = n.toNat :=
  Int64.toInt_ofNat_of_lt (n.toNat_lt.trans (by decide))

@[simp] theorem Value.number_int32 (n : Int32) : (Value.int32 n).number = n.toInt := Int32.toInt_toInt64 n

theorem bmod_congr {m n : Int} {w : Nat} (h : m ≡ n [ZMOD w]) : m.bmod w = n.bmod w := by
  rw [← Int.emod_bmod m, h, Int.emod_bmod]

theorem bmod_modEq (n : Int) (w : Nat) : n.bmod w ≡ n [ZMOD w] := Int.bmod_emod

/-- Numbers that are the same modulo the width are one value. -/
theorem Kind.reduce_congr {k : Kind} {m n : Int} (h : m ≡ n [ZMOD (2 ^ k.width : Nat)]) :
    k.reduce m = k.reduce n := by
  have int64 (h : m ≡ n [ZMOD (2 ^ 64 : Nat)]) : Int64.ofInt m = .ofInt n :=
    (Int64.ofInt_eq_iff_bmod_eq_toInt _ _).2 (by rw [Int64.toInt_ofInt]; exact bmod_congr h)
  have int32 (h : m ≡ n [ZMOD (2 ^ 32 : Nat)]) : Int32.ofInt m = .ofInt n :=
    (Int32.ofInt_eq_iff_bmod_eq_toInt _ _).2 (by rw [Int32.toInt_ofInt]; exact bmod_congr h)
  have byte (h : m ≡ n [ZMOD (2 ^ 8 : Nat)]) : UInt8.ofInt m = .ofInt n := by
    have same : m % 2 ^ 8 = n % 2 ^ 8 := h
    rw [UInt8.ofInt, UInt8.ofInt, same]
  cases k <;> first
    | exact congrArg Value.int (int64 h)
    | exact congrArg Value.int64 (int64 h)
    | exact congrArg Value.int32 (int32 h)
    | exact congrArg Value.byte (byte h)

theorem Kind.reduce_congr_wide {k : Kind} {m n : Int} (h : m ≡ n [ZMOD (2 ^ 64 : Nat)]) :
    k.reduce m = k.reduce n := by
  refine reduce_congr (h.of_dvd ?_)
  have : k.width ≤ 64 := by cases k <;> decide
  exact_mod_cast Nat.pow_dvd_pow 2 this

theorem Value.lowByte_eq (n : Int64) : lowByte n = .ofInt n.toInt := by
  have low : (n.toInt % 2 ^ 8).toNat = n.toBitVec.toNat % 2 ^ 8 := by
    have := n.toBitVec.isLt
    rw [← Int64.toInt_toBitVec, BitVec.toInt_eq_toNat_cond]
    split <;> omega
  rw [UInt8.ofInt, low, ← UInt8.toNat_inj, lowByte, UInt64.toNat_toUInt8, UInt8.toNat_ofNat', Nat.mod_mod]
  rfl

theorem Value.ofInteger_eq (k : Kind) (n : Int64) : ofInteger k n = k.reduce n.toInt := by
  have int : Value.int n = .int (.ofInt n.toInt) := congrArg _ (Int64.ofInt_toInt n).symm
  cases k with
  | byte => exact congrArg Value.byte (lowByte_eq n)
  | int32 => exact congrArg Value.int32 (Int32.ofInt_int64ToInt n).symm
  | int64 => exact congrArg Value.int64 (Int64.ofInt_toInt n).symm
  | _ => exact int

/-! ## Arithmetic -/

namespace Operator

/-- The result of arithmetic on two numbers of an integer kind is reduced to the kind. -/
theorem Arithmetic.apply_whole (f : Arithmetic) {a b : Value} (integer : a.kind.isInteger = true)
    (same : b.kind = a.kind) :
    f.apply a b =
      settle (f.whole a.whole b.whole) fun n => a.kind.reduce n.toInt := by
  simp only [← Value.ofInteger_eq]
  cases a <;> cases integer <;> cases b <;> cases same <;> rfl

theorem powerTo_modEq (bound : Nat) (result base : Int64) {power : Nat} (few : power < 2 ^ bound) :
    (powerTo bound result base power).toInt ≡ result.toInt * base.toInt ^ power
      [ZMOD (2 ^ 64 : Nat)] := by
  have product (x y : Int64) : (x * y).toInt ≡ x.toInt * y.toInt [ZMOD (2 ^ 64 : Nat)] := by
    rw [Int64.toInt_mul]
    exact bmod_modEq _ _
  induction bound generalizing result base power with
  | zero =>
    obtain rfl : power = 0 := by omega
    simp [powerTo]
  | succ bound ih =>
    rw [powerTo]
    split
    · next zero => simp [zero]
    · have half : power / 2 < 2 ^ bound := by omega
      have squares := (product base base).pow (power / 2)
      rw [← pow_two, ← pow_mul] at squares
      refine (ih _ _ half).trans ?_
      split
      · next odd =>
        have split : power = 2 * (power / 2) + 1 := by omega
        have powers : base.toInt ^ power = base.toInt ^ (2 * (power / 2)) * base.toInt := by
          conv_lhs => rw [split, pow_succ]
        rw [powers, mul_comm _ base.toInt, ← mul_assoc]
        exact (product result base).mul squares
      · next even =>
        have split : power = 2 * (power / 2) := by omega
        rw [← split] at squares
        exact squares.mul_left _

/-- A whole number to a power, as far as powers are taken. -/
theorem power_whole (x y : Int64) :
    ∃ z, power.whole x y = .ok z ∧
      (0 ≤ y.toInt → z.toInt ≡ x.toInt ^ min y.toInt.toNat greatestPower [ZMOD (2 ^ 64 : Nat)]) ∧
      (y.toInt < 0 → z.toInt = if x.toInt = 1 then 1 else 0) := by
  have sign : y < 0 ↔ y.toInt < 0 := Int64.lt_iff_toInt_lt
  simp only [power]
  split
  · next negative =>
    refine ⟨_, rfl, fun h => absurd (sign.1 negative) (by omega), fun _ => ?_⟩
    have one : x = 1 ↔ x.toInt = 1 := Int64.toInt_inj.symm
    simp only [one]
    split <;> rfl
  · next natural =>
    refine ⟨_, rfl, fun _ => ?_, fun h => absurd (sign.2 h) natural⟩
    have few : min y.toInt.toNat greatestPower < 2 ^ 32 := by
      have : greatestPower < 2 ^ 32 := by decide
      omega
    have raised := powerTo_modEq 32 1 x few
    rwa [show (1 : Int64).toInt = 1 from rfl, one_mul] at raised

end Operator

/-- Operands of one kind that are no markers are taken as they are. -/
theorem onUnified_same (level : Strictness) (f : Value → Value → StoreM Value) {a b : Value}
    (ha : a.isMarker = false) (hb : b.isMarker = false) (same : b.kind = a.kind) :
    onUnified level f a b = f a b := by
  simp [onUnified, onOperands, Value.unchanged, ha, hb, Operator.unify_same level same.symm]

theorem Value.isMarker_of_integer {v : Value} (integer : v.kind.isInteger = true) :
    v.isMarker = false :=
  isMarker_of_isScalar (Kind.isScalar_of_isNumeric (Kind.isNumeric_of_isInteger integer))

theorem pow_modEq_of_even {x : Int} (even : Even x) {m n : Nat} (hm : 64 ≤ m) (hn : 64 ≤ n) :
    x ^ m ≡ x ^ n [ZMOD (2 ^ 64 : Nat)] := by
  have zero {k : Nat} (hk : 64 ≤ k) : x ^ k ≡ 0 [ZMOD (2 ^ 64 : Nat)] := by
    refine Int.modEq_zero_iff_dvd.2 (Dvd.dvd.trans ?_ (pow_dvd_pow x hk))
    exact_mod_cast pow_dvd_pow_of_dvd even.two_dvd 64
  exact (zero hm).trans (zero hn).symm

/-- The reciprocal of a power, cut off towards zero. -/
theorem Int.tdiv_one_pow {x : Int} (other : x ≠ -1) {n : Nat} (some : n ≠ 0) :
    Int.tdiv 1 (x ^ n) = if x = 1 then 1 else 0 := by
  split
  · next one => rw [one, one_pow, Int.tdiv_one]
  · next notOne =>
    obtain rfl | large : x = 0 ∨ 1 < x.natAbs := by omega
    · rw [zero_pow some, Int.tdiv_zero]
    · rw [← Int.natAbs_eq_zero, Int.natAbs_tdiv, Int.natAbs_pow]
      exact Nat.div_eq_of_lt (Nat.one_lt_pow some large)

/-- A power of numbers of one kind is the exact power modulo the width, if the exponent has 32 bits or
the base is even; a greater exponent counts as the greatest one of 32 bits. A negative exponent gives
the reciprocal cut off towards zero, but for the base minus one, which always gives zero. -/
theorem Operation.power_reduces (level : Strictness) {a b : Value}
    (integer : a.kind.isInteger = true) (same : b.kind = a.kind) :
    (0 ≤ b.number → b.number < 2 ^ 32 ∨ Even a.number →
      power.apply level a b = pure (a.kind.reduce (a.number ^ b.number.toNat))) ∧
    (2 ^ 32 ≤ b.number →
      power.apply level a b = pure (a.kind.reduce (a.number ^ (2 ^ 32 - 1)))) ∧
    (b.number < 0 → a.number ≠ -1 →
      power.apply level a b = pure (a.kind.reduce (Int.tdiv 1 (a.number ^ b.number.natAbs)))) ∧
    (b.number < 0 → a.number = -1 → power.apply level a b = pure (a.kind.reduce 0)) := by
  obtain ⟨z, whole, natural, negative⟩ := Operator.power_whole a.whole b.whole
  change 0 ≤ b.number → z.toInt ≡ a.number ^ min b.number.toNat Operator.greatestPower [ZMOD _] at natural
  change b.number < 0 → z.toInt = if a.number = 1 then 1 else 0 at negative
  have ha := Value.isMarker_of_integer integer
  have hb := Value.isMarker_of_integer (same ▸ integer)
  have result : power.apply level a b = pure (a.kind.reduce z.toInt) := by
    refine (onUnified_same level _ ha hb same).trans ?_
    rw [Operator.Arithmetic.apply_whole _ integer same, whole]
    rfl
  have greatest : Operator.greatestPower = 2 ^ 32 - 1 := rfl
  rw [result]
  refine ⟨fun h exact => ?_, fun large => ?_, fun h other => ?_, fun h minusOne => ?_⟩
  · refine congrArg pure (Kind.reduce_congr_wide ((natural h).trans ?_))
    obtain small | even := exact
    · rw [min_eq_left (by omega)]
    · by_cases small : b.number.toNat ≤ Operator.greatestPower
      · rw [min_eq_left small]
      · exact pow_modEq_of_even even (by omega) (by omega)
  · have := natural (by omega)
    rw [min_eq_right (by omega), greatest] at this
    exact congrArg pure (Kind.reduce_congr_wide this)
  · rw [negative h, Int.tdiv_one_pow other (by omega)]
  · rw [negative h, if_neg (by omega)]

theorem Operation.powers_reduce :
    power.apply .strict (.byte 3) (.byte 7) = pure (.byte 139) ∧
    power.apply .relaxed (.int 6) (.int 4294967296) = pure (Kind.int.reduce (6 ^ 4294967296)) ∧
    power.apply .relaxed (.int 3) (.int 4294967296) = pure (Kind.int.reduce (3 ^ (2 ^ 32 - 1))) ∧
    power.apply .dynamic (.int32 (-5)) (.int32 (-2)) = pure (.int32 0) ∧
    power.apply .dynamic (.int64 (-1)) (.int64 (-3)) = pure (.int64 0) :=
  ⟨(power_reduces .strict (a := .byte 3) (b := .byte 7) rfl rfl).1 (by decide) (.inl (by decide)),
    (power_reduces .relaxed (a := .int 6) (b := .int 4294967296) rfl rfl).1 (by decide) (.inr (by decide)),
    (power_reduces .relaxed (a := .int 3) (b := .int 4294967296) rfl rfl).2.1 (by decide),
    (power_reduces .dynamic (a := .int32 (-5)) (b := .int32 (-2)) rfl rfl).2.2.1 (by decide) (by decide),
    (power_reduces .dynamic (a := .int64 (-1)) (b := .int64 (-3)) rfl rfl).2.2.2 (by decide) (by decide)⟩

/-- The reciprocal of minus one is minus one, and is lost. -/
theorem Operation.minusOne_inverted :
    power.apply .relaxed (.int (-1)) (.int (-1)) {} = (.ok (.int 0), {}) ∧
      Int.tdiv 1 ((-1) ^ 1) = -1 := ⟨rfl, by decide⟩

/-! ## Shifts -/

namespace Operator

theorem toNat_smod_ofNat {amount : Nat} (few : amount < 64) :
    ((Int64.ofNat amount).toBitVec.smod 64).toNat = amount := by
  have each : ∀ amount < 64, ((Int64.ofNat amount).toBitVec.smod 64).toNat = amount := by decide
  exact each amount few

theorem shiftLeft_modEq (n : Int64) {amount : Nat} (few : amount < 64) :
    (n <<< Int64.ofNat amount).toInt ≡ n.toInt * 2 ^ amount [ZMOD (2 ^ 64 : Nat)] := by
  have number : (n.toBitVec.toNat : Int) ≡ n.toInt [ZMOD (2 ^ 64 : Nat)] := by
    rw [← Int64.toInt_toBitVec, BitVec.toInt_eq_toNat_bmod]
    exact (bmod_modEq _ _).symm
  rw [← Int64.toInt_toBitVec, Int64.toBitVec_shiftLeft, BitVec.shiftLeft_eq', toNat_smod_ofNat few,
    BitVec.toInt_shiftLeft, Nat.shiftLeft_eq]
  refine (bmod_modEq _ _).trans ?_
  push_cast
  exact number.mul_right _

theorem toInt_shiftRight (n : Int64) {amount : Nat} (few : amount < 64) :
    (n >>> Int64.ofNat amount).toInt = n.toInt / 2 ^ amount := by
  rw [← Int64.toInt_toBitVec, Int64.toBitVec_shiftRight, BitVec.sshiftRight_eq', toNat_smod_ofNat few,
    BitVec.toInt_sshiftRight, Int.shiftRight_eq_div_pow, Int64.toInt_toBitVec]
  norm_cast

/-- A count that is not negative shifts to the left. -/
theorem shifted_left (n : Int64) {count : Int64} (natural : 0 ≤ count.toInt) :
    (shifted n count).toInt ≡ n.toInt * 2 ^ (count.toInt.toNat % 2 ^ 32) [ZMOD (2 ^ 64 : Nat)] := by
  have sign : ¬count < 0 := fun h => by
    have : count.toInt < 0 := Int64.lt_iff_toInt_lt.1 h
    omega
  have amount : count.toInt.natAbs % 0x100000000 = count.toInt.toNat % 2 ^ 32 := by omega
  simp only [shifted, if_neg sign, amount]
  split
  · next high =>
    have divides : ((2 ^ 64 : Nat) : Int) ∣ n.toInt * 2 ^ (count.toInt.toNat % 2 ^ 32) := by
      push_cast
      exact (pow_dvd_pow 2 high).mul_left _
    exact (Int.modEq_zero_iff_dvd.2 divides).symm
  · next low => exact shiftLeft_modEq n (by omega)

/-- A negative count shifts to the right. -/
theorem shifted_right (n : Int64) {count : Int64} (negative : count.toInt < 0) :
    (shifted n count).toInt = n.toInt / 2 ^ (count.toInt.natAbs % 2 ^ 32) := by
  have sign : count < 0 := Int64.lt_iff_toInt_lt.2 negative
  simp only [shifted, if_pos sign]
  split
  · next high =>
    have high : 64 ≤ count.toInt.natAbs % 2 ^ 32 := high
    have width : (2 : Int) ^ 64 ≤ 2 ^ (count.toInt.natAbs % 2 ^ 32) :=
      pow_le_pow_right₀ (by decide) high
    have lower := n.le_toInt
    have upper := n.toInt_lt
    have below : n < 0 ↔ n.toInt < 0 := Int64.lt_iff_toInt_lt
    split
    · next h => exact (Int.ediv_eq_neg_one_of_neg_of_le (below.1 h) (by omega)).symm
    · next h =>
      exact (Int.ediv_eq_zero_of_lt (by have := mt below.2 h; omega) (by omega)).symm
  · next low => exact toInt_shiftRight n (by omega)

theorem coerce_int {k : Kind} (integer : k.isInteger = true) (n : Int64) :
    Value.coerce (.int n) (.plain k) = pure (k.reduce n.toInt) := by
  rw [← Value.ofInteger_eq]
  cases k <;> first | rfl | cases integer

theorem shift_integers {a b : Value} (ha : a.kind.isInteger = true) (hb : b.kind.isInteger = true) :
    shift a b = pure (a.kind.reduce (shifted a.whole b.whole).toInt) := by
  have type (s : Store) : a.typeOf s = .plain a.kind := by
    cases a <;> first | rfl | cases ha
  funext s
  simp only [shift, ha, hb, Bool.and_self, if_true, type, StoreM.bind_of_ok (StoreM.get_eq s),
    coerce_int ha]
  rfl

end Operator

/-- A byte that is negated is what is missing to 256. -/
theorem negate_byte {v : Value} (byte : v.kind = .byte) :
    ∃ k, Operator.negate v = pure k ∧ k.kind = .byte ∧
      k.number.toNat = (256 - v.number.toNat) % 256 ∧ 0 ≤ k.number := by
  cases v with
  | byte n =>
    refine ⟨_, rfl, rfl, ?_⟩
    have := n.toNat_lt
    rw [Value.number_byte, Value.number_byte, UInt8.toNat_sub]
    constructor <;> simp <;> omega
  | _ => cases byte

/-- A number of another integer kind that is not negative has an opposite. -/
theorem negate_signed {v : Value} (integer : v.kind.isInteger = true) (signed : v.kind ≠ .byte)
    (natural : 0 ≤ v.number) :
    ∃ k, Operator.negate v = pure k ∧ k.kind = v.kind ∧ k.number = -v.number := by
  have wide (n : Int64) (h : 0 ≤ n.toInt) : (-n).toInt = -n.toInt := by
    have := n.toInt_lt
    rw [Int64.toInt_neg, Int.bmod_eq_of_le] <;> omega
  cases v with
  | byte n => exact absurd rfl signed
  | int32 n =>
    refine ⟨_, rfl, rfl, ?_⟩
    have := n.toInt_lt
    rw [Value.number_int32] at natural
    rw [Value.number_int32, Value.number_int32, Int32.toInt_neg, Int.bmod_eq_of_le] <;> omega
  | int n | int64 n => exact ⟨_, rfl, rfl, wide n natural⟩
  | _ => cases integer

/-- The number that a shift by a count gives. Of the count only the last 32 bits matter. To the right
means to the left by the negated count, which for a byte is a count to the left again. -/
def Operation.shifted (op : Operation) (v count : Value) : Int :=
  match op with
  | .shiftRight =>
    if count.kind = .byte then v.number * 2 ^ ((256 - count.number.toNat) % 256)
    else v.number / 2 ^ (count.number.toNat % 2 ^ 32)
  | _ => v.number * 2 ^ (count.number.toNat % 2 ^ 32)

theorem Operation.shift_left (level : Strictness) {v count : Value} (hv : v.kind.isInteger = true)
    (hc : count.kind.isInteger = true) (natural : 0 ≤ count.number) :
    shiftLeft.apply level v count = pure (v.kind.reduce (shiftLeft.shifted v count)) := by
  have same : onOperands Operator.shift v count = Operator.shift v count := by
    simp [onOperands, Value.unchanged, Value.isMarker_of_integer hv, Value.isMarker_of_integer hc]
  refine same.trans ((Operator.shift_integers hv hc).trans ?_)
  exact congrArg pure (Kind.reduce_congr_wide (Operator.shifted_left _ natural))

theorem Operation.shift_right (level : Strictness) {v count : Value} (hv : v.kind.isInteger = true)
    (hc : count.kind.isInteger = true) (natural : 0 ≤ count.number) :
    shiftRight.apply level v count = pure (v.kind.reduce (shiftRight.shifted v count)) := by
  -- the count is negated before the shift
  have negated {k : Value} (negate : Operator.negate count = pure k) (hk : k.kind.isInteger = true) :
      shiftRight.apply level v count =
        pure (v.kind.reduce (Operator.shifted v.whole k.whole).toInt) := by
    rw [← Operator.shift_integers hv hk]
    simp [apply, StackScript.negated, onOperands, Value.unchanged, Value.isMarker_of_integer hv,
      Value.isMarker_of_integer hc, Value.isMarker_of_integer hk, negate]
  by_cases byte : count.kind = .byte
  · obtain ⟨k, negate, kind, number, positive⟩ := negate_byte byte
    refine (negated negate (kind ▸ rfl)).trans (congrArg pure (Kind.reduce_congr_wide ?_))
    have left : (Operator.shifted v.whole k.whole).toInt ≡ v.number * 2 ^ (k.number.toNat % 2 ^ 32)
        [ZMOD (2 ^ 64 : Nat)] := Operator.shifted_left _ positive
    have amount : k.number.toNat % 2 ^ 32 = (256 - count.number.toNat) % 256 := by omega
    rw [shifted, if_pos byte]
    rwa [amount] at left
  · obtain ⟨k, negate, kind, number⟩ := negate_signed hc byte natural
    refine (negated negate (kind ▸ hc)).trans (congrArg pure (Kind.reduce_congr_wide ?_))
    rw [shifted, if_neg byte]
    obtain zero | positive : count.number = 0 ∨ 0 < count.number := by omega
    · have left : (Operator.shifted v.whole k.whole).toInt ≡ v.number * 2 ^ (k.number.toNat % 2 ^ 32)
          [ZMOD (2 ^ 64 : Nat)] := Operator.shifted_left _ (show 0 ≤ k.number by omega)
      simpa [number, zero] using left
    · have right : (Operator.shifted v.whole k.whole).toInt =
          v.number / 2 ^ (k.number.natAbs % 2 ^ 32) :=
        Operator.shifted_right _ (show k.number < 0 by omega)
      have amount : k.number.natAbs = count.number.toNat := by omega
      rw [right, amount]

/-- Every shift of one whole number by another. -/
theorem Operation.shifts {op : Operation} (shift : op = shiftLeft ∨ op = shiftRight)
    (level : Strictness) {v count : Value} (hv : v.kind.isInteger = true)
    (hc : count.kind.isInteger = true) (natural : 0 ≤ count.number) :
    op.apply level v count = pure (v.kind.reduce (op.shifted v count)) := by
  obtain rfl | rfl := shift
  · exact shift_left level hv hc natural
  · exact shift_right level hv hc natural

/-- An operator that takes both operands is applied to their values. -/
theorem Expr.eval_binary {op : Operation} (both : op.decides? = none) {σ : Setting} {a b : Expr}
    {v k : Value} {s s₁ s₂ : Store} (ha : a.eval σ s = (.ok v, s₁)) (hb : b.eval σ s₁ = (.ok k, s₂)) :
    (Expr.binary op a b).eval σ s = op.apply σ.level v k s₂ := by
  rw [Expr.eval, StoreM.bind_of_ok ha]
  simp only [both]
  exact StoreM.bind_of_ok hb

open CompileM in
/-- A shift that a source spells, of one whole number by another that is not negative, leaves the
shifted number modulo the width of its kind. -/
theorem compileExpression_shifts {source : String} {tokens : List Token} {line : Nat} {op : Operation}
    {a b : Expr} (shift : op = .shiftLeft ∨ op = .shiftRight)
    (scanned : Token.scanAll source = .ok tokens) (lines : ∀ t ∈ tokens, t.line = line)
    (written : Written (.expr .choice (.binary op a b)) tokens)
    (noType : ¬Token.OpensPointers tokens) (few : source.length < countLimit) (c : Compiler) :
    ∃ (code : Code) (c' : Compiler), compileExpression source c = (.ok code, c') ∧
      ∀ (level : Strictness) (table : TableRef) (w : World) (s₀ s₁ s₂ : Store) (v count : Value),
        let (r, s) := s₀.newCode code
        let σ : Setting := ⟨level, table, c.spelling⟩
        a.eval σ s = (.ok v, s₁) → b.eval σ s₁ = (.ok count, s₂) →
        v.kind.isInteger = true → count.kind.isInteger = true → 0 ≤ count.number →
        ∃ final : Context, (Context.new s level r table).Ends w s (.ok ()) final w s₂ ∧
          final.stack = #[v.kind.reduce (op.shifted v count)] := by
  obtain ⟨code, c', compiled, unsealed, instructions⟩ :=
    compileExpression_of scanned lines written noType c
  refine ⟨code.close, c', compiled, fun level table w s₀ s₁ s₂ v count ha hb hv hc natural => ?_⟩
  have short := written.short (Nat.lt_of_le_of_lt (Token.scanAll_length scanned) few)
  have runs := Expr.unit_runs short unsealed instructions level table w (s₀.code_newCode code.close)
  have both : op.decides? = none := by
    obtain rfl | rfl := shift <;> rfl
  have evaluates := (Expr.eval_binary both ha hb).trans
    (congrFun (Operation.shifts shift level hv hc natural) s₂)
  rw [show (Expr.binary op a b).eval ⟨level, table, c.spelling⟩ (s₀.newCode code.close).2 = _
    from evaluates] at runs
  exact runs

/-- A number shifted to the right. -/
def shiftTree : Expr :=
  .binary .shiftRight (.literal (.whole "256" 256 (by decide +kernel)))
    (.literal (.whole "4" 4 (by decide +kernel)))

/-- The tokens of a number shifted to the right. -/
def shiftTokens : List Token :=
  [⟨"256", .integer, 1, 1⟩, ⟨">>", .punctuation, 1, 5⟩, ⟨"4", .integer, 1, 8⟩]

open CompileM in
theorem sixteen_shifted : ∃ (code : Code) (c' : Compiler),
    compileExpression "256 >> 4" (.new "eval" {}) = (.ok code, c') ∧
      ∃ final : Context, (Context.new (Store.newCode {} code).2 .strict ⟨0⟩ ⟨0⟩).Ends {}
        (Store.newCode {} code).2 (.ok ()) final {} (Store.newCode {} code).2 ∧
        final.stack = #[.int 16] := by
  have scanned : Token.scanAll "256 >> 4" = .ok shiftTokens := by decide +kernel
  have lines : ∀ t ∈ shiftTokens, t.line = 1 := by decide
  have written : Written (.expr .choice shiftTree) shiftTokens :=
    shiftTree.written_of_words .choice shiftTokens lines rfl
  have noType : ¬Token.OpensPointers shiftTokens := by decide
  obtain ⟨code, c', compiled, runs⟩ := compileExpression_shifts (.inr rfl) scanned lines written noType
    (by decide) (.new "eval" {})
  exact ⟨code, c', compiled, runs .strict ⟨0⟩ {} {} _ _ (.int 256) (.int 4) rfl rfl rfl rfl (by decide)⟩

/-- A byte that is negated is no negative count, so that the number is shifted to the left. -/
theorem Operation.byte_count_shifts_left :
    shiftRight.apply .relaxed (.int 256) (.byte 4) {} = (.ok (.int 0), {}) ∧
      (256 : Int) / 2 ^ 4 = 16 := ⟨rfl, by decide⟩

end StackScript
