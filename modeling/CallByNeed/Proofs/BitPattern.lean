import CallByNeed.Floating.Bits
import Mathlib.Data.Rat.Floor
import Mathlib.Tactic.FieldSimp
import Mathlib.Tactic.LinearCombination

set_option autoImplicit false

/-!
Bit patterns and the rational numbers that they stand for.

A pattern has a sign, an exponent field and a fraction field, and stands for a
rational number unless the exponent field is all ones. The number of quanta is
that rational number at the scale of the format, and no pattern is lost.
-/

namespace CallByNeed

namespace Format

variable (f : Format)

/-- The exponent field of the numbers from one up to two. -/
def bias : Nat := 2 ^ (f.exponent - 1) - 1

/-- What the fields stand for: the fraction times the least power of two if the exponent
field is zero, and one more than the fraction times the power of two otherwise. -/
def rational (bits : Nat) : Option ℚ :=
  let sign : ℚ := if bits.testBit (f.fraction + f.exponent) then -1 else 1
  let exponent := bits >>> f.fraction % 2 ^ f.exponent
  let fraction : ℚ := (bits % 2 ^ f.fraction : Nat) / 2 ^ f.fraction
  if exponent + 1 = 2 ^ f.exponent then none
  else if exponent = 0 then some (sign * (fraction * 2 ^ (1 - f.bias : ℤ)))
  else some (sign * ((1 + fraction) * 2 ^ (exponent - f.bias : ℤ)))

theorem scale_add_one : f.scale + 1 = f.bias + f.fraction := by
  have positive := f.fraction_pos
  have power := Nat.two_pow_pos (f.exponent - 1)
  rw [scale, bias, Nat.one_shiftLeft]
  omega

theorem two_pow_scale : (2 : ℚ) ^ f.scale * 2 = 2 ^ f.bias * 2 ^ f.fraction := by
  rw [← pow_succ, scale_add_one, pow_add]

/-- The quanta of a number with these fields are what the fields stand for. -/
theorem magnitude_eq (exponent fraction : Nat) :
    (f.magnitude exponent fraction : ℚ) / 2 ^ f.scale =
      if exponent = 0 then (fraction : ℚ) / 2 ^ f.fraction * 2 ^ (1 - f.bias : ℤ)
      else (1 + (fraction : ℚ) / 2 ^ f.fraction) * 2 ^ (exponent - f.bias : ℤ) := by
  have scale := f.two_pow_scale
  have least (n : Nat) : (2 : ℚ) ^ (n - f.bias : ℤ) = 2 ^ n / 2 ^ f.bias := by
    rw [zpow_sub₀ (by norm_num), zpow_natCast, zpow_natCast]
  unfold magnitude
  split
  · have := least 1
    rw [Nat.cast_one] at this
    rw [this]
    field_simp
    linear_combination -(fraction : ℚ) * scale
  · next nonzero =>
    obtain ⟨e, rfl⟩ := Nat.exists_eq_succ_of_ne_zero nonzero
    rw [least, Nat.shiftLeft_eq, Nat.one_shiftLeft]
    push_cast
    rw [pow_succ]
    field_simp
    linear_combination (-1 : ℚ) * scale

theorem gap_of_lt {n : Nat} (small : n < 2 ^ (f.fraction + 1)) : f.gap n = 0 := by
  have log : n.log2 ≤ f.fraction := by
    by_cases zero : n = 0
    · simp [zero]
    · exact Nat.lt_succ_iff.mp ((Nat.log2_lt zero).mpr small)
  unfold gap
  omega

/-- A significand with its leading bit is spaced by its shift. -/
theorem gap_shiftLeft {k s : Nat} (low : 2 ^ f.fraction ≤ k) (high : k < 2 ^ (f.fraction + 1)) :
    f.gap (k <<< s) = s := by
  have positive := Nat.two_pow_pos f.fraction
  have log : (k <<< s).log2 = f.fraction + s := by
    have nonzero : k * 2 ^ s ≠ 0 := Nat.mul_ne_zero (by omega) (Nat.two_pow_pos s).ne'
    rw [Nat.shiftLeft_eq, Nat.log2_eq_iff nonzero, Nat.add_right_comm, Nat.pow_add, Nat.pow_add]
    exact ⟨Nat.mul_le_mul_right _ low, Nat.mul_lt_mul_of_pos_right high (Nat.two_pow_pos s)⟩
  unfold gap
  omega

end Format

namespace Floating

variable {f : Format}

/-- The exact number, if there is one. -/
def value : Floating f → Option ℚ
  | .finite negative quanta _ => some (signed negative quanta / 2 ^ f.scale)
  | _ => none

theorem signed_eq (negative : Bool) (n : Nat) :
    (signed negative n : ℚ) = (if negative then -1 else 1) * n := by
  cases negative <;> simp

@[simp] theorem value_ofBits (bits : Nat) : (ofBits bits : Floating f).value = f.rational bits := by
  have field := mod_shiftLeft_lt (bits >>> f.fraction) f.exponent
  rw [ofBits, Format.rational]
  simp only [Nat.one_shiftLeft] at field ⊢
  split
  · next finite =>
    rw [if_neg (by omega), value, signed_eq, mul_div_assoc, f.magnitude_eq, mul_ite]
    exact apply_ite some _ _ _
  · next special =>
    rw [if_pos (by omega)]
    split <;> rfl

/-! No pattern is lost -/

theorem magnitudeBits_magnitude {exponent fraction : Nat} (small : fraction < 2 ^ f.fraction) :
    magnitudeBits f (f.magnitude exponent fraction) = exponent * 2 ^ f.fraction + fraction := by
  have double := Nat.pow_succ 2 f.fraction
  unfold Format.magnitude magnitudeBits
  cases exponent with
  | zero =>
    rw [if_pos rfl, f.gap_of_lt (by omega), Nat.zero_shiftLeft, Nat.shiftRight_zero, Nat.zero_mul]
  | succ e =>
    rw [if_neg (by omega), Nat.add_sub_cancel, Nat.one_shiftLeft,
      f.gap_shiftLeft (by omega) (by omega), Nat.shiftLeft_shiftRight, Nat.shiftLeft_eq,
      Nat.succ_mul]
    omega

/-- The three fields together are the pattern. -/
theorem fields_eq {bits m n : Nat} (inside : bits < 2 ^ (m + n + 1)) :
    (if bits.testBit (m + n) then 2 ^ (m + n) else 0) +
      (bits >>> m % 2 ^ n * 2 ^ m + bits % 2 ^ m) = bits := by
  have low := Nat.div_add_mod bits (2 ^ m)
  have high := Nat.div_add_mod (bits / 2 ^ m) (2 ^ n)
  have top : bits / 2 ^ (m + n) < 2 := by
    rw [Nat.div_lt_iff_lt_mul (Nat.two_pow_pos _), Nat.mul_comm, ← Nat.pow_succ]
    exact inside
  rw [Nat.testBit_eq_decide_div_mod_eq, Nat.mod_eq_of_lt top, Nat.shiftRight_eq_div_pow]
  rw [Nat.div_div_eq_div_mul, ← Nat.pow_add] at high
  generalize bits / 2 ^ (m + n) = sign at *
  conv => rhs; rw [← low, ← high]
  rcases (by omega : sign = 0 ∨ sign = 1) with rfl | rfl
  · simp
    ring
  · simp
    ring

@[simp] theorem toBits_ofBits {bits : Nat} (inside : bits < 2 ^ (f.fraction + f.exponent + 1)) :
    (ofBits bits : Floating f).toBits = bits := by
  have fields := fields_eq inside
  have field := mod_shiftLeft_lt (bits >>> f.fraction) f.exponent
  have fraction := mod_shiftLeft_lt bits f.fraction
  rw [ofBits]
  simp only [Nat.one_shiftLeft] at field fraction ⊢
  split
  · next finite =>
    simp only [toBits, isNegative, Nat.one_shiftLeft]
    rw [magnitudeBits_magnitude fraction, fields]
  · next special =>
    have ones : bits >>> f.fraction % 2 ^ f.exponent = 2 ^ f.exponent - 1 := by omega
    split
    · next zero =>
      simp only [toBits, isNegative, infinityBits, Nat.shiftLeft_eq, Nat.one_mul]
      rw [zero, ones] at fields
      exact fields
    · simp only [toBits, isNegative, infinityBits, Nat.shiftLeft_eq, Nat.one_mul]
      rw [ones, ← Nat.add_assoc] at fields
      exact fields

end Floating

end CallByNeed
