import CallByNeed.Proofs.Quotient
import CallByNeed.Proofs.Reading
import CallByNeed.Proofs.Summation

set_option autoImplicit false

/-!
Numbers taken apart and put together.

A number is its significand times a power of two, exactly. The power is multiplied back in
two halves: the first product is far from both ends of the range and so exact, and the
second has the number itself as its result. An infinity is taken apart like a number one
step past the largest, and there the second product overflows.
-/

namespace CallByNeed

namespace Floating

/-! Products -/

section Products

variable {f : Format} {x y z : Floating f} {q r : ℚ}

theorem exists_finite (exact : x.value = some q) :
    ∃ s n onGrid, x = .finite s n onGrid ∧ (signed s n : ℚ) = q * 2 ^ f.scale := by
  cases x with
  | nan => cases exact
  | infinite => cases exact
  | finite s n onGrid =>
    refine ⟨s, n, onGrid, rfl, ?_⟩
    rw [← Option.some.inj exact, div_mul_cancel₀ _ (by positivity)]

/-- A product that the format holds is exact. -/
theorem value_mul (first : x.value = some q) (second : y.value = some r)
    (product : z.value = some (q * r)) : (x * y).value = some (q * r) := by
  obtain ⟨s, m, _, rfl, left⟩ := exists_finite first
  obtain ⟨t, n, _, rfl, right⟩ := exists_finite second
  obtain ⟨u, k, onGrid, rfl, whole⟩ := exists_finite product
  have scaled : signed (s != t) (m * n) = signed u k * (2 ^ f.scale : Nat) := by
    have : (signed s m : ℚ) * signed t n = signed u k * 2 ^ f.scale := by
      rw [left, right, whole]
      ring
    rw [signed_mul]
    exact_mod_cast this
  have quanta : m * n = k * 2 ^ f.scale := by
    have magnitudes := congrArg Int.natAbs scaled
    rwa [Int.natAbs_mul, natAbs_signed, natAbs_signed, Int.natAbs_natCast] at magnitudes
  have sign : signed (s != t) k = signed u k := by
    rw [quanta, signed_mul_nat] at scaled
    exact Int.eq_of_mul_eq_mul_right (by positivity) scaled
  rw [finite_mul_finite, ofQuanta_eq scale_pos (by rw [quanta, Nat.one_shiftLeft]) onGrid]
  show some ((signed (s != t) k : ℚ) / 2 ^ f.scale) = some (q * r)
  rw [sign, whole, mul_div_cancel_right₀ _ (by positivity)]

/-- A product of powers of two past the largest number is infinite. -/
theorem mul_eq_infinite {s : Bool} {j k : ℤ} (first : x.value = some ((signed s 1 : ℚ) * 2 ^ j))
    (second : y.value = some (2 ^ k)) (large : f.limit ≤ j + k + f.scale) :
    x * y = .infinite s := by
  obtain ⟨t, m, _, rfl, left⟩ := exists_finite first
  obtain ⟨u, n, _, rfl, right⟩ := exists_finite second
  obtain ⟨e, exponent⟩ := Int.eq_ofNat_of_zero_le (show 0 ≤ j + k + f.scale by omega)
  have power : (2 : ℚ) ^ j * 2 ^ k * 2 ^ f.scale = 2 ^ e := by
    have nonzero : (2 : ℚ) ≠ 0 := by norm_num
    rw [← zpow_natCast 2 f.scale, ← zpow_add₀ nonzero, ← zpow_add₀ nonzero, exponent]
    exact zpow_natCast 2 e
  have product : signed (t != u) (m * n) = signed s (2 ^ e * 2 ^ f.scale) := by
    have : (signed t m : ℚ) * signed u n = signed s 1 * (2 ^ e * 2 ^ f.scale) := by
      rw [left, right, ← power]
      ring
    have split := signed_mul_nat s 1 (2 ^ e * 2 ^ f.scale)
    rw [Nat.one_mul] at split
    rw [signed_mul, split]
    exact_mod_cast this
  obtain ⟨sign, quanta⟩ := signed_inj product (by positivity)
  have aligned : f.Aligned (1 <<< e) := by
    apply f.aligned_shiftLeft
    rw [Nat.one_shiftLeft]
    exact Nat.one_le_two_pow
  rw [finite_mul_finite, sign, quanta]
  apply ofQuanta_eq_infinite (n := 1 <<< e) scale_pos (by simp [Nat.one_shiftLeft]) aligned
  rw [Nat.one_shiftLeft, Nat.one_shiftLeft]
  exact Nat.pow_le_pow_right (by decide) (by omega)

end Products

/-! Powers of two -/

theorem twoPow_neg {k : Nat} (positive : 0 < k) :
    (twoPow (-k) : Double) = ofInt (1 : Nat) / twoPow k := by
  rw [twoPow, twoPow, if_neg (by omega), if_pos (by omega), Int.natAbs_neg]
  rfl

/-- Up to this exponent both a power and its reciprocal are exact. -/
theorem value_twoPow {n : Int} (small : n.natAbs ≤ 1022) :
    (twoPow n : Double).value = some (2 ^ n) := by
  obtain ⟨k, rfl | rfl⟩ := Int.eq_nat_or_neg n
  · rw [(isNat_twoPow (by omega)).value]
    norm_cast
  · by_cases zero : k = 0
    · subst zero
      exact (isNat_twoPow (n := 0) (by decide)).value.trans (by simp)
    · have narrow : Format.double.scale - k + k = Format.double.scale := by
        show 1074 - k + k = 1074
        omega
      have onGrid : Format.double.OnGrid (1 <<< (Format.double.scale - k)) := by
        refine Format.onGrid_shiftLeft (w := 0) (by decide) (by decide) ?_
        show 0 + (1074 - k) < 2098
        omega
      obtain ⟨_, one⟩ := isNat_ofInt (n := 1) (by decide)
      obtain ⟨_, power⟩ := isNat_twoPow (n := k) (by omega)
      have positive : 0 < 2 ^ k <<< Format.double.scale := units_pos (Nat.two_pow_pos k)
      rw [twoPow_neg (by omega), one, power, finite_div_finite positive.ne',
        ofQuanta_eq positive _ onGrid]
      · show some (((1 <<< (Format.double.scale - k) : Nat) : ℤ) / 2 ^ Format.double.scale : ℚ) = _
        generalize Format.double.scale = scale at narrow
        rw [← narrow, Nat.add_sub_cancel, Nat.one_shiftLeft, zpow_neg, zpow_natCast, pow_add]
        push_cast
        field_simp
      · generalize Format.double.scale = scale at narrow
        simp only [Nat.shiftLeft_eq, Nat.one_mul]
        rw [← Nat.mul_assoc, ← Nat.pow_add 2 (scale - k), narrow]

/-- A significand of 53 bits times a power of two is held unless it is past one of the ends. -/
theorem exists_value {n k : Int} (narrow : n.natAbs ≤ 2 ^ 53) (low : -1074 ≤ k)
    (high : k < 971) : ∃ z : Double, z.value = some ((n : ℚ) * 2 ^ k) := by
  obtain ⟨e, exponent⟩ := Int.eq_ofNat_of_zero_le (show 0 ≤ k + 1074 by omega)
  have onGrid : Format.double.OnGrid (n.natAbs <<< e) := by
    apply Format.onGrid_shiftLeft narrow (Nat.le_refl 53)
    show 53 + e < 2098
    omega
  refine ⟨.finite (n < 0) (n.natAbs <<< e) onGrid, ?_⟩
  have power : (2 : ℚ) ^ k * 2 ^ Format.double.scale = 2 ^ e := by
    rw [← zpow_natCast, ← zpow_natCast, ← zpow_add₀ (by norm_num)]
    exact congrArg _ exponent
  show some ((signed (n < 0) (n.natAbs <<< e) : ℚ) / 2 ^ Format.double.scale) = _
  rw [Nat.shiftLeft_eq, signed_mul_nat, signed_decide, Option.some_inj,
    div_eq_iff (by positivity), mul_assoc, power]
  push_cast
  rfl

end Floating

/-! Fields of patterns -/

namespace Format

variable (f : Format)

/-- The significand that the fields give. Its hidden bit is set unless the exponent field is
zero. -/
def significand (bits : Nat) : Nat :=
  (if bits >>> f.fraction % 2 ^ f.exponent = 0 then 0 else 2 ^ f.fraction) + bits % 2 ^ f.fraction

/-- The power of two that the significand is multiplied by. -/
def power (bits : Nat) : Int :=
  (max (bits >>> f.fraction % 2 ^ f.exponent) 1 : Nat) - (f.bias + f.fraction : Nat)

theorem significand_double (bits : Nat) : double.significand bits =
    (if bits >>> 52 % 2 ^ 11 = 0 then 0 else 2 ^ 52) + bits % 2 ^ 52 :=
  rfl

theorem power_double (bits : Nat) :
    double.power bits = (max (bits >>> 52 % 2 ^ 11) 1 : Nat) - 1075 :=
  rfl

theorem significand_single (bits : Nat) : single.significand bits =
    (if bits >>> 23 % 2 ^ 8 = 0 then 0 else 2 ^ 23) + bits % 2 ^ 23 :=
  rfl

theorem power_single (bits : Nat) :
    single.power bits = (max (bits >>> 23 % 2 ^ 8) 1 : Nat) - 150 :=
  rfl

theorem significand_lt (bits : Nat) : f.significand bits < 2 ^ (f.fraction + 1) := by
  have small : bits % 2 ^ f.fraction < 2 ^ f.fraction := Nat.mod_lt _ (Nat.two_pow_pos _)
  rw [significand, Nat.pow_succ]
  split <;> omega

/-- The number of a pattern is its significand times the power of two. -/
theorem rational_eq {bits : Nat} {q : ℚ} (exact : f.rational bits = some q) :
    q = signed (bits.testBit (f.fraction + f.exponent)) (f.significand bits) * 2 ^ f.power bits := by
  have scaled (x : ℚ) (e : Nat) : x / 2 ^ f.fraction * 2 ^ (e - f.bias : ℤ) =
      x * 2 ^ (e - (f.bias + f.fraction : Nat) : ℤ) := by
    rw [Nat.cast_add, ← sub_sub, zpow_sub₀ (by norm_num) _ (f.fraction : ℤ), zpow_natCast]
    ring
  simp only [rational] at exact
  split at exact
  · cases exact
  split at exact
  · next zero =>
    have least := scaled (bits % 2 ^ f.fraction : Nat) 1
    rw [Nat.cast_one] at least
    rw [← Option.some.inj exact, Floating.signed_eq, significand, power, zero, least]
    simp
  · next nonzero =>
    have whole : (1 : ℚ) + (bits % 2 ^ f.fraction : Nat) / 2 ^ f.fraction =
        (2 ^ f.fraction + (bits % 2 ^ f.fraction : Nat)) / 2 ^ f.fraction := by
      field_simp
    rw [← Option.some.inj exact, Floating.signed_eq, significand, power, whole, scaled,
      if_neg nonzero, max_eq_left (by omega)]
    push_cast
    ring

end Format

/-! Fields of words -/

@[simp] theorem toNat_low (n : Nat) : (UInt64.ofNat n).toUInt32.toNat = n % 2 ^ 32 := by
  rw [UInt64.toNat_toUInt32, UInt64.toNat_ofNat']
  omega

@[simp]
theorem toNat_high (n : Nat) : (UInt64.ofNat n >>> 32).toUInt32.toNat = n / 2 ^ 32 % 2 ^ 32 := by
  rw [UInt64.toNat_toUInt32, UInt64.toNat_shiftRight, UInt64.toNat_ofNat',
    Nat.shiftRight_eq_div_pow]
  show n % 2 ^ 64 / 2 ^ 32 % 2 ^ 32 = _
  omega

theorem toInt_toInt32 {w : UInt32} (small : w.toNat < 2 ^ 31) : w.toInt32.toInt = w.toNat := by
  rw [← Int32.toInt_toBitVec, UInt32.toBitVec_toInt32, BitVec.toInt_eq_toNat_of_lt]
  · rfl
  · rw [UInt32.toNat_toBitVec]
    omega

theorem toInt_toInt32_sub (w : UInt32) (bias : Int32) (small : w.toNat < 2 ^ 30)
    (natural : 0 ≤ bias.toInt) (low : bias.toInt < 2 ^ 30) :
    (w.toInt32 - bias).toInt = w.toNat - bias.toInt := by
  rw [Int32.toInt_sub, toInt_toInt32 (by omega), Int.bmod_eq_of_le (by omega) (by omega)]

/-- A word with room for a sign takes it by a product. -/
theorem toInt_sign_mul (s : Bool) {w : UInt32} {n : Nat} (same : w.toNat = n)
    (small : n < 2 ^ 31) : ((if s then -1 else 1) * w.toInt32).toInt = signed s n := by
  rw [Int32.toInt_mul, toInt_toInt32 (by omega), same]
  cases s with
  | false =>
    rw [signed_false]
    show (1 * n : Int).bmod (2 ^ 32) = n
    rw [Int.bmod_eq_of_le (by omega) (by omega), Int.one_mul]
  | true =>
    rw [signed_true]
    show (-1 * n : Int).bmod (2 ^ 32) = -n
    rw [Int.bmod_eq_of_le (by omega) (by omega), Int.neg_one_mul]

/-! Taking apart -/

/-- The mantissa of both words. -/
def Decoded.mantissa (parts : Decoded) : Nat :=
  parts.mantissaHigh.toNat * 2 ^ 32 + parts.mantissaLow.toNat

namespace Floating

@[simp] theorem isNegative_ofBits {f : Format} (bits : Nat) :
    (ofBits bits : Floating f).isNegative = bits.testBit (f.fraction + f.exponent) := by
  rw [ofBits]
  split
  · rfl
  · split <;> rfl

theorem value_of_isZero {f : Format} {x : Floating f} {q : ℚ} (zero : x.isZero)
    (exact : x.value = some q) : q = 0 := by
  obtain ⟨s, n, onGrid, rfl, -⟩ := exists_finite exact
  obtain rfl : n = 0 := beq_iff_eq.mp zero
  rw [← Option.some.inj exact]
  cases s <;> simp

theorem decodeDouble_of_isZero {x : Double} (zero : x.isZero) :
    x.decodeDouble.mantissa = 0 ∧ x.decodeDouble.exponent = 0 := by
  rw [decodeDouble, if_pos zero]
  simp [Decoded.mantissa]

@[simp] theorem sign_decodeDouble (x : Double) :
    x.decodeDouble.sign = if x.isNegative then -1 else 1 := by
  unfold decodeDouble
  dsimp only
  split
  · rfl
  · split <;> rfl

/-- Masks and shifts take the two fields out of the pattern. -/
theorem fields_decodeDouble {x : Double} (nonzero : ¬ x.isZero) :
    x.decodeDouble.mantissa = Format.double.significand x.toBits ∧
      x.decodeDouble.exponent.toInt = Format.double.power x.toBits := by
  have high := toNat_high x.toBits
  have low := toNat_low x.toBits
  rw [Format.significand_double, Format.power_double, decodeDouble, if_neg nonzero,
    Nat.shiftRight_eq_div_pow]
  dsimp only
  generalize (UInt64.ofNat x.toBits >>> 32).toUInt32 = word at high
  have fraction := Word.toNat_and_mask word 0xFFFFF (k := 20) rfl
  have biased : (word >>> 20 &&& 0x7FF).toNat = x.toBits / 2 ^ 52 % 2 ^ 11 := by
    rw [Word.toNat_and_mask _ _ (k := 11) rfl, UInt32.toNat_shiftRight, Nat.shiftRight_eq_div_pow]
    show word.toNat / 2 ^ 20 % 2 ^ 11 = _
    omega
  split
  · next subnormal =>
    rw [← biased, subnormal, UInt32.toNat_zero, if_pos rfl, Decoded.mantissa, fraction, low]
    exact ⟨by omega, rfl⟩
  · next normal =>
    have positive : x.toBits / 2 ^ 52 % 2 ^ 11 ≠ 0 := by
      rwa [← biased, Ne, ← UInt32.toNat_zero, UInt32.toNat_inj]
    have hidden := Word.toNat_or_bit (word &&& 0xFFFFF) 0x100000 (k := 20) rfl (by omega)
    have exponent := toInt_toInt32_sub (word >>> 20 &&& 0x7FF) 1075 (by omega) (by decide)
      (by decide)
    rw [Decoded.mantissa, hidden, fraction, low, exponent, biased, if_neg positive,
      max_eq_left (by omega)]
    exact ⟨by omega, rfl⟩

theorem fields_decodeSingle {x : Single} (nonzero : ¬ x.isZero) :
    x.decodeSingle.1.toInt = signed x.isNegative (Format.single.significand x.toBits) ∧
      x.decodeSingle.2.toInt = Format.single.power x.toBits := by
  have word : (UInt32.ofNat x.toBits).toNat = x.toBits % 2 ^ 32 := UInt32.toNat_ofNat'
  rw [Format.significand_single, Format.power_single, decodeSingle, if_neg nonzero,
    Nat.shiftRight_eq_div_pow]
  dsimp only
  generalize UInt32.ofNat x.toBits = bits at word
  have fraction := Word.toNat_and_mask bits 0x7FFFFF (k := 23) rfl
  have biased : (bits >>> 23 &&& 0xFF).toNat = x.toBits / 2 ^ 23 % 2 ^ 8 := by
    rw [Word.toNat_and_mask _ _ (k := 8) rfl, UInt32.toNat_shiftRight, Nat.shiftRight_eq_div_pow]
    show bits.toNat / 2 ^ 23 % 2 ^ 8 = _
    omega
  split
  · next subnormal =>
    rw [← biased, subnormal, UInt32.toNat_zero, if_pos rfl]
    exact ⟨toInt_sign_mul _ (by omega) (by omega), rfl⟩
  · next normal =>
    have positive : x.toBits / 2 ^ 23 % 2 ^ 8 ≠ 0 := by
      rwa [← biased, Ne, ← UInt32.toNat_zero, UInt32.toNat_inj]
    have hidden := Word.toNat_or_bit (bits &&& 0x7FFFFF) 0x800000 (k := 23) rfl (by omega)
    have exponent := toInt_toInt32_sub (bits >>> 23 &&& 0xFF) 150 (by omega) (by decide)
      (by decide)
    rw [exponent, biased, if_neg positive, max_eq_left (by omega)]
    exact ⟨toInt_sign_mul _ (by omega) (by omega), rfl⟩

theorem decodeSingle_of_isZero {x : Single} (zero : x.isZero) : x.decodeSingle = (0, 0) :=
  if_pos zero

theorem decodeSingle_bounds (x : Single) : x.decodeSingle.1.toInt.natAbs < 2 ^ 24 ∧
    -149 ≤ x.decodeSingle.2.toInt ∧ x.decodeSingle.2.toInt ≤ 105 := by
  by_cases zero : x.isZero
  · rw [decodeSingle_of_isZero zero]
    decide
  · obtain ⟨mantissa, exponent⟩ := fields_decodeSingle zero
    rw [mantissa, exponent, natAbs_signed, Format.power_single]
    exact ⟨Format.single.significand_lt _, by omega, by omega⟩

theorem decodeSingle_mul_two_pow {bits : Nat} {q : ℚ} (inside : bits < 2 ^ 32)
    (exact : Format.single.rational bits = some q) :
    ((decodeSingle (.ofBits bits)).1.toInt : ℚ) * 2 ^ (decodeSingle (.ofBits bits)).2.toInt = q := by
  by_cases zero : (ofBits bits : Single).isZero
  · rw [value_of_isZero zero ((value_ofBits bits).trans exact), decodeSingle_of_isZero zero]
    simp
  · have same : (ofBits bits : Single).toBits = bits := toBits_ofBits inside
    obtain ⟨mantissa, exponent⟩ := fields_decodeSingle zero
    rw [mantissa, exponent, same, isNegative_ofBits, ← Format.single.rational_eq exact]

end Floating

namespace Integer

open Floating

variable {x : Double} {q : ℚ}

@[simp] theorem toInt_decodeDouble (x : Double) :
    (decodeDouble x).1.toInt = signed x.isNegative x.decodeDouble.mantissa := by
  have mantissa : (make [x.decodeDouble.mantissaLow, x.decodeDouble.mantissaHigh] false).toInt =
      x.decodeDouble.mantissa := by
    rw [toInt_make, denote_cons, denote_cons, denote_nil, if_neg Bool.false_ne_true,
      Decoded.mantissa]
    push_cast
    ring
  unfold decodeDouble
  dsimp only
  rw [sign_decodeDouble]
  cases x.isNegative with
  | false => rw [if_neg (by decide), mantissa, signed_false]
  | true => rw [if_pos (by decide), toInt_neg, mantissa, signed_true]

theorem natAbs_decodeDouble_lt (x : Double) : (decodeDouble x).1.toInt.natAbs < 2 ^ 53 := by
  rw [toInt_decodeDouble, natAbs_signed]
  by_cases zero : x.isZero
  · rw [(decodeDouble_of_isZero zero).1]
    exact Nat.two_pow_pos _
  · rw [(fields_decodeDouble zero).1]
    exact Format.double.significand_lt _

theorem exponent_decodeDouble (x : Double) :
    -1074 ≤ (decodeDouble x).2.toInt ∧ (decodeDouble x).2.toInt ≤ 972 := by
  show -1074 ≤ x.decodeDouble.exponent.toInt ∧ x.decodeDouble.exponent.toInt ≤ 972
  by_cases zero : x.isZero
  · rw [(decodeDouble_of_isZero zero).2]
    decide
  · rw [(fields_decodeDouble zero).2, Format.power_double]
    omega

/-- The significand times the power of two is the number. -/
theorem decodeDouble_mul_two_pow {bits : Nat} (inside : bits < 2 ^ 64)
    (exact : Format.double.rational bits = some q) :
    ((decodeDouble (.ofBits bits)).1.toInt : ℚ) * 2 ^ (decodeDouble (.ofBits bits)).2.toInt = q := by
  rw [toInt_decodeDouble]
  show (signed _ _ : ℚ) * 2 ^ (ofBits bits : Double).decodeDouble.exponent.toInt = q
  by_cases zero : (ofBits bits : Double).isZero
  · rw [value_of_isZero zero ((value_ofBits bits).trans exact), (decodeDouble_of_isZero zero).1]
    cases (ofBits bits : Double).isNegative <;> simp
  · have same : (ofBits bits : Double).toBits = bits := toBits_ofBits inside
    obtain ⟨mantissa, exponent⟩ := fields_decodeDouble zero
    rw [mantissa, exponent, same, isNegative_ofBits, ← Format.double.rational_eq exact]

/-- The mantissa fits in a double. -/
theorem value_toDouble_decodeDouble (x : Double) :
    (decodeDouble x).1.toDouble.value = some ((decodeDouble x).1.toInt : ℚ) := by
  obtain ⟨z, exact⟩ := exists_value (n := (decodeDouble x).1.toInt) (k := 0)
    (natAbs_decodeDouble_lt x).le (by decide) (by decide)
  exact (canonical_decodeDouble x).value_toDouble (by simpa using exact)

/-! Putting together -/

section Encode

variable {mantissa : Double} {n e : Int}

/-- The first product is exact, and the exponent that is left over is small. -/
theorem value_encode_half (exact : mantissa.value = some (n : ℚ)) (narrow : n.natAbs ≤ 2 ^ 53)
    (low : -1074 ≤ e) (high : e ≤ 972) :
    (mantissa * twoPow (e.tdiv 2)).value = some ((n : ℚ) * 2 ^ e.tdiv 2) ∧
      (twoPow (e - e.tdiv 2) : Double).value = some (2 ^ (e - e.tdiv 2)) := by
  have half : -537 ≤ e.tdiv 2 ∧ e.tdiv 2 ≤ 486 ∧ -537 ≤ e - e.tdiv 2 ∧ e - e.tdiv 2 ≤ 486 := by
    rw [Int.tdiv_eq_ediv, show Int.sign 2 = 1 from rfl]
    split <;> omega
  obtain ⟨z, held⟩ := exists_value (k := e.tdiv 2) narrow (by omega) (by omega)
  exact ⟨value_mul exact (value_twoPow (by omega)) held, value_twoPow (by omega)⟩

theorem value_encode {z : Double} (exact : mantissa.value = some (n : ℚ))
    (narrow : n.natAbs ≤ 2 ^ 53) (low : -1074 ≤ e) (high : e ≤ 972)
    (held : z.value = some ((n : ℚ) * 2 ^ e)) :
    (mantissa.encode e).value = some ((n : ℚ) * 2 ^ e) := by
  obtain ⟨first, second⟩ := value_encode_half exact narrow low high
  have split : (n : ℚ) * 2 ^ e.tdiv 2 * 2 ^ (e - e.tdiv 2) = n * 2 ^ e := by
    rw [mul_assoc, ← zpow_add₀ (by norm_num), add_sub_cancel]
  rw [← split] at held ⊢
  exact value_mul first second held

end Encode

theorem encode_decodeDouble (exact : x.value = some q) (nonzero : q ≠ 0)
    (product : ((decodeDouble x).1.toInt : ℚ) * 2 ^ (decodeDouble x).2.toInt = q) :
    (decodeDouble x).1.toDouble.encode (decodeDouble x).2.toInt = x := by
  have bounds := exponent_decodeDouble x
  have value := value_encode (z := x) (value_toDouble_decodeDouble x)
    (natAbs_decodeDouble_lt x).le bounds.1 bounds.2 (by rw [exact, product])
  rw [product] at value
  exact eq_of_value value exact nonzero

theorem encode_decodeDouble_infinite (s : Bool) :
    (decodeDouble (.infinite s)).1.toDouble.encode (decodeDouble (.infinite s)).2.toInt =
      .infinite s := by
  have mantissa : (decodeDouble (.infinite s)).1.toInt = signed s 1 * 2 ^ 52 := by
    cases s <;> decide +kernel
  have exponent : (decodeDouble (.infinite s)).2.toInt = 972 := by
    cases s <;> decide +kernel
  obtain ⟨first, second⟩ := value_encode_half (e := 972)
    (value_toDouble_decodeDouble (.infinite s)) (natAbs_decodeDouble_lt _).le
    (by decide) (by decide)
  have hidden : ((2 ^ 52 : ℤ) : ℚ) = 2 ^ (52 : ℤ) := by norm_num
  rw [mantissa, Int.cast_mul, mul_assoc, hidden, ← zpow_add₀ (by norm_num)] at first
  rw [exponent]
  exact mul_eq_infinite first second (by decide)

/-- A zero comes back without its sign. -/
theorem toBits_encode_decodeDouble_zero (exact : x.value = some ((0 : Int) : ℚ)) :
    ((decodeDouble x).1.toDouble.encode (decodeDouble x).2.toInt).toBits = 0 := by
  have zeros : ∀ s, ((decodeDouble (.zero s)).1.toDouble.encode
      (decodeDouble (.zero s)).2.toInt).toBits = 0 := by decide +kernel
  obtain ⟨s, n, onGrid, rfl, -⟩ := exists_finite exact
  obtain rfl := quanta_of_value_zero exact
  exact zeros s

/-- The patterns up to that of infinity, the sign aside, are those of numbers. -/
theorem ofBits_cases {bits : Nat} (number : bits % 2 ^ 63 ≤ infinityBits .double) :
    (∃ q, (ofBits bits : Double).value = some q) ∨ ∃ s, (ofBits bits : Double) = .infinite s := by
  have field : bits >>> Format.double.fraction % 1 <<< Format.double.exponent =
      bits / 2 ^ 52 % 2 ^ 11 := by
    rw [Nat.shiftRight_eq_div_pow]
    rfl
  rw [ofBits]
  split
  · exact .inl ⟨_, rfl⟩
  · next special =>
    have infinite : bits % 1 <<< Format.double.fraction = 0 := by
      have ones : 2047 ≤ bits / 2 ^ 52 % 2 ^ 11 := Nat.le_of_not_lt (field ▸ special)
      have bound : bits % 2 ^ 63 ≤ 2047 * 2 ^ 52 := number
      show bits % 2 ^ 52 = 0
      omega
    rw [dif_pos infinite]
    exact .inr ⟨_, rfl⟩

/-- A double is its mantissa times the power of two, and comes back from them with all its
bits, infinities included, unless it is the negative zero. A single is its mantissa times
the power of two as well. Mantissas have the format's width, and exponents are small. -/
theorem decode_exact_encode_bits :
    (∀ bits < 2 ^ 64, ∀ q : ℚ, Format.double.rational bits = some q →
      ((decodeDouble (.ofBits bits)).1.toInt : ℚ) *
        2 ^ (decodeDouble (.ofBits bits)).2.toInt = q) ∧
    (∀ bits < 2 ^ 64, bits % 2 ^ 63 ≤ infinityBits .double →
      ((decodeDouble (.ofBits bits)).1.toDouble.encode
        (decodeDouble (.ofBits bits)).2.toInt).toBits = if bits = 2 ^ 63 then 0 else bits) ∧
    (∀ bits < 2 ^ 32, ∀ q : ℚ, Format.single.rational bits = some q →
      ((decodeSingle (.ofBits bits)).1.toInt : ℚ) *
        2 ^ (decodeSingle (.ofBits bits)).2.toInt = q) ∧
    (∀ x : Double, (decodeDouble x).1.Canonical ∧ (decodeDouble x).1.toInt.natAbs < 2 ^ 53 ∧
      -1074 ≤ (decodeDouble x).2.toInt ∧ (decodeDouble x).2.toInt ≤ 972) ∧
    ∀ y : Single, (decodeSingle y).1.toInt.natAbs < 2 ^ 24 ∧
      -149 ≤ (decodeSingle y).2.toInt ∧ (decodeSingle y).2.toInt ≤ 105 := by
  refine ⟨fun bits inside q exact => decodeDouble_mul_two_pow inside exact,
    fun bits inside number => ?_, fun bits inside q exact => decodeSingle_mul_two_pow inside exact,
    fun x => ⟨canonical_decodeDouble x, natAbs_decodeDouble_lt x, exponent_decodeDouble x⟩,
    decodeSingle_bounds⟩
  have same : (ofBits bits : Double).toBits = bits := toBits_ofBits inside
  rcases ofBits_cases number with ⟨q, exact⟩ | ⟨s, infinite⟩
  · by_cases zero : q = 0
    · rw [zero, ← Int.cast_zero] at exact
      have either := toBits_of_value_zero exact
      rw [same] at either
      rw [toBits_encode_decodeDouble_zero exact]
      split <;> omega
    · have product := decodeDouble_mul_two_pow inside ((value_ofBits bits).symm.trans exact)
      rw [encode_decodeDouble exact zero product, same, if_neg]
      rintro rfl
      exact zero (Option.some.inj (exact.symm.trans value_ofBits_sign))
  · rw [infinite] at same ⊢
    rw [encode_decodeDouble_infinite, same, if_neg]
    rintro rfl
    revert s
    decide

/-- Minus three quarters, the negative number next to zero, minus infinity, and minus 15
quarters as a single. -/
theorem decode_exact_encode_bits_negative :
    Format.double.rational 0xBFE8000000000000 = some (-3 / 4) ∧
      ((decodeDouble (.ofBits 0xBFE8000000000000)).1.toInt : ℚ) *
        2 ^ (decodeDouble (.ofBits 0xBFE8000000000000)).2.toInt = -3 / 4 ∧
      ((decodeDouble (.ofBits 0x8000000000000001)).1.toDouble.encode
        (decodeDouble (.ofBits 0x8000000000000001)).2.toInt).toBits = 0x8000000000000001 ∧
      ((decodeDouble (.ofBits 0xFFF0000000000000)).1.toDouble.encode
        (decodeDouble (.ofBits 0xFFF0000000000000)).2.toInt).toBits = 0xFFF0000000000000 ∧
      Format.single.rational 0xC0700000 = some (-15 / 4) ∧
      ((decodeSingle (.ofBits 0xC0700000)).1.toInt : ℚ) *
        2 ^ (decodeSingle (.ofBits 0xC0700000)).2.toInt = -15 / 4 := by
  obtain ⟨doubles, bits, singles, -⟩ := decode_exact_encode_bits
  have double : Format.double.rational 0xBFE8000000000000 = some (-3 / 4) := by
    have sign : Nat.testBit 0xBFE8000000000000 63 = true := by decide
    have field : 0xBFE8000000000000 >>> 52 % 2048 = 1022 := by decide
    norm_num [Format.rational, Format.bias, Format.double, sign, field]
  have single : Format.single.rational 0xC0700000 = some (-15 / 4) := by
    have sign : Nat.testBit 0xC0700000 31 = true := by decide
    have field : 0xC0700000 >>> 23 % 256 = 128 := by decide
    norm_num [Format.rational, Format.bias, Format.single, sign, field]
  exact ⟨double, doubles _ (by decide) _ double, bits _ (by decide) (by decide),
    bits _ (by decide) (by decide), single, singles _ (by decide) _ single⟩

end Integer

end CallByNeed
