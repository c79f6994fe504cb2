import CallByNeed.Proofs.Product
import Mathlib.Data.Int.ModEq

set_option autoImplicit false

/-!
Arithmetic of 64 bits.

A pair of words stands for a residue modulo `2 ^ 64`. Sums, opposites, differences and
products of pairs are those of the residues, whichever way they are computed: limb by
limb, with the least number apart, or as doubles where both factors are small.
-/

namespace CallByNeed

namespace Long

/-- The words as one number. -/
def bits (x : Long) : Nat := x.high.toNat * 2 ^ 32 + x.low.toNat

variable {x y : Long} {m n : Int}

theorem bits_lt (x : Long) : x.bits < 2 ^ 64 := by
  have low := x.low.toNat_lt
  have high := x.high.toNat_lt
  unfold bits
  omega

theorem eq_of_bits (same : x.bits = y.bits) : x = y := by
  have := x.low.toNat_lt
  have := y.low.toNat_lt
  unfold bits at same
  have low : x.low = y.low := UInt32.toNat_inj.mp (by omega)
  have high : x.high = y.high := UInt32.toNat_inj.mp (by omega)
  cases x
  cases y
  exact congrArg₂ Long.mk low high

theorem bits_ofInt (n : Int) : ((ofInt n).bits : Int) = n % 2 ^ 64 := by
  have low := Word.toNat_ofInt n
  have high := Word.toNat_ofInt (n / 0x100000000)
  simp only [bits, ofInt]
  omega

theorem eq_ofInt_of_bits (residue : (x.bits : Int) = n % 2 ^ 64) : x = ofInt n := by
  apply eq_of_bits
  have := bits_ofInt n
  omega

theorem ofInt_congr (same : m % 2 ^ 64 = n % 2 ^ 64) : ofInt m = ofInt n := by
  apply eq_ofInt_of_bits
  rw [bits_ofInt, same]

/-- The topmost bit counts as negative. -/
theorem toInt_eq (x : Long) :
    x.toInt = if x.bits < 2 ^ 63 then (x.bits : Int) else x.bits - 2 ^ 64 := by
  have := x.low.toNat_lt
  have := x.high.toNat_lt
  have high : x.high.toInt32.toInt = (x.high.toNat : Int).bmod (2 ^ 32) :=
    BitVec.toInt_eq_toNat_bmod _
  rw [toInt, high, Int.bmod]
  unfold bits
  omega

theorem isNegative_iff (x : Long) : x.isNegative = true ↔ x.toInt < 0 := by
  have := x.low.toNat_lt
  have := x.bits_lt
  rw [toInt_eq]
  simp only [isNegative, Word.isNegative, bits, decide_eq_true_eq] at *
  omega

theorem nonneg_of_isNegative (positive : x.isNegative = false) : 0 ≤ x.toInt := by
  rw [← Bool.not_eq_true, isNegative_iff] at positive
  omega

@[simp] theorem ofInt_toInt (x : Long) : ofInt x.toInt = x := by
  symm
  apply eq_ofInt_of_bits
  have := x.bits_lt
  rw [toInt_eq]
  omega

theorem toInt_bounds (x : Long) : -2 ^ 63 ≤ x.toInt ∧ x.toInt < 2 ^ 63 := by
  have := x.bits_lt
  rw [toInt_eq]
  omega

theorem toInt_ofInt_mod (n : Int) : (ofInt n).toInt % 2 ^ 64 = n % 2 ^ 64 := by
  have := bits_ofInt n
  rw [toInt_eq]
  omega

theorem toInt_ofInt (low : -2 ^ 63 ≤ n) (high : n < 2 ^ 63) : (ofInt n).toInt = n := by
  have := bits_ofInt n
  rw [toInt_eq]
  omega

theorem toInt_ofInt_bmod (n : Int) : (ofInt n).toInt = n.bmod (2 ^ 64) := by
  have residue := toInt_ofInt_mod n
  have bounds := (ofInt n).toInt_bounds
  rw [Int.bmod_def]
  omega

theorem toInt_injective (same : x.toInt = y.toInt) : x = y := by
  rw [← ofInt_toInt x, same, ofInt_toInt]

/-! Sums and opposites -/

@[simp] theorem bits_add (x y : Long) : (x + y).bits = (x.bits + y.bits) % 2 ^ 64 := by
  show bits (Long.add x y) = _
  have := x.low.toNat_lt
  have := x.high.toNat_lt
  have := y.low.toNat_lt
  have := y.high.toNat_lt
  simp only [bits, Long.add, Word.lowLimb, Word.highLimb, Word.ofLimbs, UInt32.toNat_ofNat']
  omega

theorem ofInt_add (m n : Int) : ofInt (m + n) = ofInt m + ofInt n := by
  symm
  apply eq_ofInt_of_bits
  have := bits_ofInt m
  have := bits_ofInt n
  rw [bits_add]
  omega

@[simp] theorem bits_complement (x : Long) : x.complement.bits = 2 ^ 64 - 1 - x.bits := by
  have size : UInt32.size = 2 ^ 32 := rfl
  have := x.low.toNat_lt
  have := x.high.toNat_lt
  simp only [bits, complement, UInt32.toNat_not, size]
  omega

theorem ofInt_complement (n : Int) : ofInt (-n - 1) = (ofInt n).complement := by
  symm
  apply eq_ofInt_of_bits
  have := bits_ofInt n
  rw [bits_complement]
  omega

theorem eq_least_iff (x : Long) : x = least ↔ x.toInt = -2 ^ 63 :=
  ⟨fun same => same ▸ by decide, fun same => toInt_injective (same.trans (by decide))⟩

theorem ofInt_neg (n : Int) : ofInt (-n) = -ofInt n := by
  show _ = Long.neg (ofInt n)
  unfold Long.neg
  split
  case isTrue isLeast =>
    have := bits_ofInt n
    have half : least.bits = 2 ^ 63 := by decide
    symm
    apply eq_ofInt_of_bits
    rw [isLeast] at this
    omega
  case isFalse =>
    rw [← ofInt_complement, show one = ofInt 1 by decide, ← ofInt_add, Int.sub_add_cancel]

theorem ofInt_sub (m n : Int) : ofInt (m - n) = ofInt m - ofInt n := by
  rw [Int.sub_eq_add_neg, ofInt_add, ofInt_neg]
  rfl

theorem neg_eq_ofInt (x : Long) : -x = ofInt (-x.toInt) := by
  rw [ofInt_neg, ofInt_toInt]

theorem toInt_neg (other : x ≠ least) : (-x).toInt = -x.toInt := by
  have bounds := x.toInt_bounds
  rw [Ne, eq_least_iff] at other
  rw [neg_eq_ofInt, toInt_ofInt (by omega) (by omega)]

theorem nonneg_neg (other : x ≠ least) (negative : x.isNegative = true) : 0 ≤ (-x).toInt := by
  rw [isNegative_iff] at negative
  rw [toInt_neg other]
  omega

theorem sub_eq_ofInt (x y : Long) : x - y = ofInt (x.toInt - y.toInt) := by
  rw [ofInt_sub, ofInt_toInt, ofInt_toInt]

/-! Products -/

theorem bits_eq_limbs (x : Long) :
    x.bits = Word.lowLimb x.low + Word.highLimb x.low * 2 ^ 16 + Word.lowLimb x.high * 2 ^ 32 +
      Word.highLimb x.high * 2 ^ 48 := by
  unfold bits Word.lowLimb Word.highLimb
  omega

/-- The limb products that are left out are multiples of `2 ^ 64`. -/
@[simp] theorem bits_mulLimbs (x y : Long) : (mulLimbs x y).bits = x.bits * y.bits % 2 ^ 64 := by
  rw [bits_eq_limbs x, bits_eq_limbs y]
  simp only [mulLimbs, bits, Word.ofLimbs, UInt32.toNat_ofNat']
  generalize Word.lowLimb x.low = a0, Word.highLimb x.low = a1, Word.lowLimb x.high = a2,
    Word.highLimb x.high = a3, Word.lowLimb y.low = b0, Word.highLimb y.low = b1,
    Word.lowLimb y.high = b2, Word.highLimb y.high = b3
  have product : (a0 + a1 * 2 ^ 16 + a2 * 2 ^ 32 + a3 * 2 ^ 48) *
      (b0 + b1 * 2 ^ 16 + b2 * 2 ^ 32 + b3 * 2 ^ 48) =
      a0 * b0 + (a1 * b0 + a0 * b1) * 2 ^ 16 + (a2 * b0 + a1 * b1 + a0 * b2) * 2 ^ 32 +
        (a3 * b0 + a2 * b1 + a1 * b2 + a0 * b3) * 2 ^ 48 +
        (a3 * b1 + a2 * b2 + a1 * b3 + (a3 * b2 + a2 * b3) * 2 ^ 16 + a3 * b3 * 2 ^ 32) *
          2 ^ 64 := by
    ring
  rw [product, Nat.add_mul_mod_self_right]
  omega

theorem mulLimbs_eq (low : 0 ≤ x.toInt) (low' : 0 ≤ y.toInt) :
    mulLimbs x y = ofInt (x.toInt * y.toInt) := by
  have natural : ∀ z : Long, 0 ≤ z.toInt → z.toInt = z.bits := by
    intro z low
    rw [toInt_eq] at low ⊢
    have := z.bits_lt
    omega
  apply eq_ofInt_of_bits
  rw [bits_mulLimbs, natural x low, natural y low']
  push_cast
  rfl

theorem compare_eq (x y : Long) : compare x y = compare x.toInt y.toInt := by
  show Long.compare x y = _
  have bounds := x.toInt_bounds
  have bounds' := y.toInt_bounds
  have sign := x.isNegative_iff
  have sign' := y.isNegative_iff
  unfold Long.compare
  split
  · next same => exact (Int.compare_eq_eq.mpr (congrArg toInt same)).symm
  · next other =>
    have different : x.toInt ≠ y.toInt := fun same => other (toInt_injective same)
    split
    · next negative positive =>
      rw [negative] at sign
      rw [positive] at sign'
      exact (Int.compare_eq_lt.mpr (by simp at sign sign'; omega)).symm
    · next positive negative =>
      rw [positive] at sign
      rw [negative] at sign'
      exact (Int.compare_eq_gt.mpr (by simp at sign sign'; omega)).symm
    · next unlike unlike' =>
      -- The difference of numbers with one sign stays in range.
      have signs : x.toInt < 0 ↔ y.toInt < 0 := by
        rw [← sign, ← sign']
        revert unlike unlike'
        cases x.isNegative <;> cases y.isNegative <;> simp
      have difference : (x - y).toInt = x.toInt - y.toInt := by
        rw [sub_eq_ofInt, toInt_ofInt (by omega) (by omega)]
      have less : (x - y).isNegative = true ↔ x.toInt < y.toInt := by
        rw [isNegative_iff, difference]
        omega
      split
      · next below => exact (Int.compare_eq_lt.mpr (less.mp below)).symm
      · next above =>
        rw [less] at above
        exact (Int.compare_eq_gt.mpr (by omega)).symm

theorem isSmallFactor_iff (x : Long) : x.isSmallFactor = true ↔ x.toInt < 2 ^ 24 := by
  have value : (⟨0x1000000, 0⟩ : Long).toInt = 2 ^ 24 := by decide
  rw [isSmallFactor, compare_eq, value, beq_iff_eq, Int.compare_eq_lt]

/-! Products as doubles -/

section Doubles

open Floating

variable {v : Double} {k : Nat}

theorem isNat_limitDouble : limitDouble.IsNat (2 ^ 63) := by
  have power : (0x8000000000000000 : Int) = (2 ^ 63 : Nat) := by norm_num
  rw [limitDouble, power]
  exact isNat_ofInt_of_onGrid (Format.onGrid_two_pow (by decide))

theorem isNat_words (low : 0 ≤ x.toInt) :
    (Floating.ofInt x.high.toInt32.toInt * wordPower : Double).IsNat (x.high.toNat * 2 ^ 32) ∧
      (Floating.ofInt x.low.toNat : Double).IsNat x.low.toNat ∧
      x.high.toNat * 2 ^ 32 + x.low.toNat = x.toInt.toNat := by
  have := x.low.toNat_lt
  have := x.high.toNat_lt
  have value := x.toInt_eq
  have pair : x.toInt = x.high.toInt32.toInt * 0x100000000 + x.low.toNat := rfl
  unfold bits at value
  have high : x.high.toInt32.toInt = x.high.toNat := by omega
  refine ⟨?_, isNat_ofInt (by omega), by omega⟩
  rw [high]
  apply (isNat_ofInt (by omega)).mul isNat_wordPower
  rw [← Nat.shiftLeft_eq]
  exact Format.onGrid_units (w := 32) (by omega) (by decide) (by decide)

theorem isNat_toDouble (low : 0 ≤ x.toInt) (small : x.toInt ≤ 2 ^ 53) :
    x.toDouble.IsNat x.toInt.toNat := by
  obtain ⟨upper, lower, sum⟩ := isNat_words low
  rw [← sum]
  exact upper.add lower (Format.onGrid_nat (by omega))

section Finite

variable {n : Nat} (onGrid : Format.double.OnGrid n)

/-- The words of a double are those of its integer part. -/
theorem ofSmallDouble_finite :
    ofSmallDouble (.finite false n onGrid) = ofInt (n >>> Format.double.scale : Nat) := by
  have quotient := toInt_div_two_pow onGrid isNat_wordPower
  have rest : ((.finite false n onGrid : Double) % wordPower).toInt =
      (n >>> Format.double.scale % 2 ^ 32 : Nat) := by
    rw [finite_mod_wordPower, toInt_finite, Nat.add_comm 32, Nat.pow_add,
      Nat.shiftRight_eq_div_pow, Nat.mod_mul_right_div_self, Nat.shiftRight_eq_div_pow]
  apply eq_ofInt_of_bits
  generalize n >>> Format.double.scale = whole at quotient rest ⊢
  have low := Word.toNat_ofInt (whole % 2 ^ 32 : Nat)
  have high := Word.toNat_ofInt (whole / 2 ^ 32 : Nat)
  simp only [ofSmallDouble, Word.ofDouble_eq, rest, quotient, bits]
  omega

theorem limitDouble_le_add_one :
    limitDouble.le (.finite false n onGrid + 1) = true ↔ 2 ^ 63 ≤ n >>> Format.double.scale := by
  obtain ⟨limitGrid, -⟩ := isNat_limitDouble
  obtain ⟨_, unit⟩ := isNat_one
  have units : 2 ^ 63 ≤ n >>> Format.double.scale ↔ 2 ^ 63 <<< Format.double.scale ≤ n := by
    rw [Nat.shiftRight_eq_div_pow, Nat.shiftLeft_eq, Nat.le_div_iff_mul_le (Nat.two_pow_pos _)]
  rw [unit, finite_add_finite, isNat_limitDouble.le_ofQuanta, units]
  constructor
  · intro reached
    by_contra below
    have := Format.round_add_unit_lt (e := 62) onGrid.2 (by decide) (Nat.lt_of_not_le below)
    omega
  · intro large
    exact Format.le_round limitGrid.2 (by decide) (by omega)

/-- Toward zero, and no further than the greatest number. -/
theorem ofDouble_finite : ofDouble (.finite false n onGrid) =
    if 2 ^ 63 ≤ n >>> Format.double.scale then greatest
    else ofInt (n >>> Format.double.scale : Nat) := by
  have above : (.finite false n onGrid : Double).le (-limitDouble) = false :=
    isNat_limitDouble.finite_le_neg (by decide) onGrid
  have natural : (.finite false n onGrid : Double).lt 0 = false := by
    rw [← Bool.not_eq_true, finite_lt_zero_iff]
    simp
  unfold ofDouble
  rw [if_neg (by simp [isFinite]), above, natural, ofSmallDouble_finite]
  simp only [Bool.false_eq_true, if_false, limitDouble_le_add_one]

end Finite

theorem ofDouble_of_isNat (h : v.IsNat k) (small : k < 2 ^ 63) : ofDouble v = ofInt k := by
  obtain ⟨onGrid, rfl⟩ := h
  rw [ofDouble_finite, Nat.shiftLeft_shiftRight, if_neg (by omega)]

theorem mulPositive_eq (low : 0 ≤ x.toInt) (low' : 0 ≤ y.toInt) :
    mulPositive x y = ofInt (x.toInt * y.toInt) := by
  unfold mulPositive
  split
  · next small =>
    rw [Bool.and_eq_true, isSmallFactor_iff, isSmallFactor_iff] at small
    have bound : x.toInt.toNat * y.toInt.toNat < 2 ^ 24 * 2 ^ 24 :=
      Nat.mul_lt_mul'' (by omega) (by omega)
    have product := (isNat_toDouble low (by omega)).mul (isNat_toDouble low' (by omega))
      (Format.onGrid_nat (by omega))
    rw [ofDouble_of_isNat product (by omega), Nat.cast_mul, Int.toNat_of_nonneg low,
      Int.toNat_of_nonneg low']
  · exact mulLimbs_eq low low'

end Doubles

theorem isZero_iff (x : Long) : x.isZero = true ↔ x.toInt = 0 := by
  have := x.low.toNat_lt
  have := x.high.toNat_lt
  rw [toInt_eq]
  simp only [isZero, bits, Bool.and_eq_true, beq_iff_eq, ← UInt32.toNat_inj, UInt32.toNat_zero]
  omega

theorem isOdd_iff (x : Long) : x.isOdd = true ↔ x.toInt % 2 = 1 := by
  rw [toInt_eq]
  simp only [isOdd, bits, beq_iff_eq, ← UInt32.toNat_inj, UInt32.toNat_mod]
  show x.low.toNat % 2 = 1 ↔ _
  omega

/-- Half the range times an odd number is half the range, and times an even number nothing. -/
theorem least_mul (n : Int) :
    (if n % 2 = 1 then least else zero) = ofInt (-2 ^ 63 * n) := by
  split
  · apply eq_ofInt_of_bits
    have half : least.bits = 2 ^ 63 := by decide
    omega
  · apply eq_ofInt_of_bits
    have none : zero.bits = 0 := by decide
    omega

theorem mul_eq_ofInt (x y : Long) : x * y = ofInt (x.toInt * y.toInt) := by
  show Long.mul x y = _
  unfold Long.mul
  split
  · next none =>
    rw [Bool.or_eq_true, isZero_iff, isZero_iff, ← Int.mul_eq_zero] at none
    rw [none]
    decide
  split
  · next isLeast =>
    rw [(eq_least_iff x).mp isLeast, ← least_mul]
    simp only [isOdd_iff]
  split
  · next isLeast =>
    rw [(eq_least_iff y).mp isLeast, Int.mul_comm, ← least_mul]
    simp only [isOdd_iff]
  next other other' =>
  split
  · next negative negative' =>
    rw [mulPositive_eq (nonneg_neg other negative) (nonneg_neg other' negative'),
      toInt_neg other, toInt_neg other', Int.neg_mul_neg]
  · next negative positive =>
    rw [mulPositive_eq (nonneg_neg other negative) (nonneg_of_isNegative positive), ← ofInt_neg,
      toInt_neg other, Int.neg_mul, Int.neg_neg]
  · next positive negative =>
    rw [mulPositive_eq (nonneg_of_isNegative positive) (nonneg_neg other' negative), ← ofInt_neg,
      toInt_neg other', Int.mul_neg, Int.neg_neg]
  · next positive positive' =>
    exact mulPositive_eq (nonneg_of_isNegative positive) (nonneg_of_isNegative positive')

theorem ofInt_mul (m n : Int) : ofInt (m * n) = ofInt m * ofInt n := by
  rw [mul_eq_ofInt]
  apply ofInt_congr
  rw [Int.mul_emod, ← toInt_ofInt_mod m, ← toInt_ofInt_mod n, ← Int.mul_emod]

/-! Shifts -/

theorem toNat_word_sub {s : UInt32} (few : s < 32) : (32 - s).toNat = 32 - s.toNat := by
  rw [UInt32.toNat_sub_of_le _ _ (UInt32.le_of_lt few)]
  rfl

theorem toNat_sub_word {s : UInt32} (large : 32 ≤ s) : (s - 32).toNat = s.toNat - 32 := by
  rw [UInt32.toNat_sub_of_le _ _ large]
  rfl

theorem bits_shiftLeft_of_lt (x : Long) {s : UInt32} (some : s ≠ 0) (few : s < 32) :
    bits ⟨x.low <<< s, (x.high <<< s) ||| (x.low >>> (32 - s))⟩ =
      x.bits * 2 ^ s.toNat % 2 ^ 64 := by
  have positive : s.toNat ≠ 0 := fun zero => some (UInt32.toNat_inj.mp zero)
  have below : s.toNat < 32 := UInt32.lt_iff_toNat_lt.mp few
  have rest := toNat_word_sub few
  have sum : s.toNat + (32 - s.toNat) = 32 := by omega
  have glue := Integer.toNat_shiftLeft_or_shiftRight rfl rest sum (by omega) (by omega)
    x.low x.high
  have bound := ((x.high <<< s) ||| (x.low >>> (32 - s))).toNat_lt
  have carried := Integer.low_add_carry sum x.low
  have shifted : (x.low <<< s).toNat = x.low.toNat * 2 ^ s.toNat % 2 ^ 32 := by
    rw [UInt32.toNat_shiftLeft, Nat.mod_eq_of_lt below, Nat.shiftLeft_eq]
  have product : x.bits * 2 ^ s.toNat =
      x.high.toNat * 2 ^ s.toNat * 2 ^ 32 + x.low.toNat * 2 ^ s.toNat := by
    rw [bits, Nat.add_mul, Nat.mul_right_comm]
  rw [glue] at bound
  rw [product, bits, glue, shifted]
  generalize x.high.toNat * 2 ^ s.toNat = upper, x.low.toNat * 2 ^ s.toNat = lower at *
  omega

/-- The upper word is lost, and the lower one moves into its place. -/
theorem bits_shiftLeft_of_ge (x : Long) {s : UInt32} (large : 32 ≤ s) (small : s.toNat < 64) :
    bits ⟨0, x.low <<< (s - 32)⟩ = x.bits * 2 ^ s.toNat % 2 ^ 64 := by
  have above : 32 ≤ s.toNat := UInt32.le_iff_toNat_le.mp large
  have rest := toNat_sub_word large
  have shifted : (x.low <<< (s - 32)).toNat = x.low.toNat * 2 ^ (s.toNat - 32) % 2 ^ 32 := by
    rw [UInt32.toNat_shiftLeft, rest, Nat.mod_eq_of_lt (by omega : s.toNat - 32 < 32),
      Nat.shiftLeft_eq]
  have product : x.bits * 2 ^ s.toNat = x.low.toNat * 2 ^ (s.toNat - 32) * 2 ^ 32 +
      2 ^ 64 * (x.high.toNat * 2 ^ (s.toNat - 32)) := by
    have split : 2 ^ s.toNat = 2 ^ (s.toNat - 32) * 2 ^ 32 := by
      rw [← Nat.pow_add, Nat.sub_add_cancel above]
    rw [split, bits]
    generalize 2 ^ (s.toNat - 32) = power
    ring
  rw [product, bits, shifted, UInt32.toNat_zero, Nat.add_mul_mod_self_left]
  omega

@[simp] theorem bits_shiftLeft (x : Long) (amount : UInt32) :
    (x.shiftLeft amount).bits = x.bits * 2 ^ (amount.toNat % 64) % 2 ^ 64 := by
  have count : (amount % 64).toNat = amount.toNat % 64 := UInt32.toNat_mod ..
  have small : (amount % 64).toNat < 64 := by omega
  unfold shiftLeft
  dsimp only
  rw [← count]
  split
  · next none =>
    rw [none, UInt32.toNat_zero, Nat.pow_zero, Nat.mul_one, Nat.mod_eq_of_lt x.bits_lt]
  split
  · next some few => exact x.bits_shiftLeft_of_lt some few
  · next some many => exact x.bits_shiftLeft_of_ge (UInt32.not_lt.mp many) small

theorem ofInt_shiftLeft (n : Int) {amount : UInt32} (small : amount.toNat < 64) :
    ofInt (n * 2 ^ amount.toNat) = (ofInt n).shiftLeft amount := by
  symm
  apply eq_ofInt_of_bits
  rw [bits_shiftLeft, Nat.mod_eq_of_lt small]
  push_cast
  rw [bits_ofInt]
  exact (Int.mod_modEq n (2 ^ 64)).mul_right _

end Long

end CallByNeed
