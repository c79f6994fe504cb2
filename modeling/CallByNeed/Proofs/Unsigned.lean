import CallByNeed.Proofs.Bridge
import CallByNeed.Proofs.TwosComplement

set_option autoImplicit false

/-!
Unsigned integers of 64 bits.

Their bits are those of signed ones, so that sums, products and shifts are read off the signed
operations, also where the topmost bit makes an operand negative there. Quotients are those of
integers of any size, and fit.
-/

namespace CallByNeed.ULong

open Integer (toInt_ofULong)

variable {x y : ULong}

theorem toNat_lt (x : ULong) : x.toNat < 2 ^ 64 := x.toLong.bits_lt

theorem toLong_eq (x : ULong) : x.toLong = Long.ofInt x.toNat := by
  apply Long.eq_ofInt_of_bits
  have bound := x.toNat_lt
  show (x.toNat : Int) = _
  omega

theorem toNat_ofLong_ofInt (n : Int) : ((ofLong (Long.ofInt n)).toNat : Int) = n % 2 ^ 64 :=
  Long.bits_ofInt n

theorem toNat_add (x y : ULong) :
    ((x + y).toNat : Int) = ((x.toNat : Int) + y.toNat) % 2 ^ 64 := by
  show ((ofLong (x.toLong + y.toLong)).toNat : Int) = _
  rw [toLong_eq, toLong_eq, ← Long.ofInt_add, toNat_ofLong_ofInt]

theorem toNat_sub (x y : ULong) :
    ((x - y).toNat : Int) = ((x.toNat : Int) - y.toNat) % 2 ^ 64 := by
  show ((ofLong (x.toLong - y.toLong)).toNat : Int) = _
  rw [toLong_eq, toLong_eq, ← Long.ofInt_sub, toNat_ofLong_ofInt]

theorem toNat_mul (x y : ULong) :
    ((x * y).toNat : Int) = ((x.toNat : Int) * y.toNat) % 2 ^ 64 := by
  show ((ofLong (x.toLong * y.toLong)).toNat : Int) = _
  rw [toLong_eq, toLong_eq, ← Long.ofInt_mul, toNat_ofLong_ofInt]

theorem compare_eq (x y : ULong) : compare x y = compare x.toNat y.toNat := by
  have value : ∀ z : ULong, wordsToNat [z.low, z.high] = z.toNat := by
    intro z
    simp only [wordsToNat, toNat]
    omega
  show Integer.compareWords [x.low, x.high] [y.low, y.high] = _
  rw [compareWords_eq (by rfl), value, value]

@[simp] theorem toNat_shiftRight (x : ULong) (amount : UInt32) :
    (x.shiftRight amount).toNat = x.toNat / 2 ^ (amount.toNat % 64) := by
  show (x.toLong.shiftRightUnsigned amount).bits = x.toLong.bits / _
  rw [← Long.toNat_word, ← Long.toNat_word, Long.word_shiftRightUnsigned,
    BitVec.toNat_ushiftRight, Nat.shiftRight_eq_div_pow]

/-! Quotients -/

theorem canonical_ofULong (x : ULong) : (Integer.ofULong x).Canonical :=
  Integer.canonical_make _ _

theorem divisions_eq_error (x : ULong) (isZero : y.toNat = 0) :
    x.quot y = .error .divisionByZero ∧ x.rem y = .error .divisionByZero := by
  have value : (Integer.ofULong y).toInt = 0 := by
    rw [toInt_ofULong, isZero]
    rfl
  obtain ⟨fails, fails', -⟩ :=
    Integer.divisions_eq_error (a := .ofULong x) (canonical_ofULong y) value
  rw [quot, rem, fails, fails']
  exact ⟨rfl, rfl⟩

/-- A number that fits comes back whole. -/
theorem toNat_toULong {a : Integer} {n : Nat} (value : a.toInt = n) (small : n < 2 ^ 64) :
    a.toULong.toNat = n := by
  have cut := Integer.toInt_ofULong_toULong a
  rw [toInt_ofULong, value] at cut
  omega

theorem exists_quotRem (x : ULong) (nonzero : y.toNat ≠ 0) :
    ∃ q r, x.quot y = .ok q ∧ x.rem y = .ok r ∧ q.toNat = x.toNat / y.toNat ∧
      r.toNat = x.toNat % y.toNat := by
  have some : (Integer.ofULong y).toInt ≠ 0 := by
    rw [toInt_ofULong]
    omega
  obtain ⟨q, r, found, -, rest, quotient, remainder, -⟩ :=
    Integer.exists_quotRem (canonical_ofULong x) (canonical_ofULong y) some
  rw [toInt_ofULong, toInt_ofULong] at quotient remainder
  have bound := x.toNat_lt
  refine ⟨q.toULong, r.toULong, ?_, ?_, toNat_toULong quotient ?_, toNat_toULong remainder ?_⟩
  · rw [quot, found]
    rfl
  · rw [rem, rest]
    rfl
  · exact Nat.lt_of_le_of_lt (Nat.div_le_self _ _) bound
  · exact Nat.lt_of_le_of_lt (Nat.mod_le _ _) bound

/-- Sums, differences and products are exact modulo `2 ^ 64`, the order is that of the numbers,
and shifts multiply or divide by a power of two, by the amount modulo 64. A division by zero
fails; any other gives quotient and remainder of the numbers. -/
theorem operations_natural (x y : ULong) (amount : UInt32) :
    x.toNat < 2 ^ 64 ∧
    ((x + y).toNat : Int) = ((x.toNat : Int) + y.toNat) % 2 ^ 64 ∧
    ((x - y).toNat : Int) = ((x.toNat : Int) - y.toNat) % 2 ^ 64 ∧
    ((x * y).toNat : Int) = ((x.toNat : Int) * y.toNat) % 2 ^ 64 ∧
    compare x y = compare x.toNat y.toNat ∧
    (x.shiftLeft amount).toNat = x.toNat * 2 ^ (amount.toNat % 64) % 2 ^ 64 ∧
    (x.shiftRight amount).toNat = x.toNat / 2 ^ (amount.toNat % 64) ∧
    (y.toNat = 0 →
      x.quot y = .error .divisionByZero ∧ x.rem y = .error .divisionByZero) ∧
    (y.toNat ≠ 0 →
      ∃ q r, x.quot y = .ok q ∧ x.rem y = .ok r ∧ q.toNat = x.toNat / y.toNat ∧
        r.toNat = x.toNat % y.toNat) :=
  ⟨toNat_lt x, toNat_add x y, toNat_sub x y, toNat_mul x y, compare_eq x y,
    Long.bits_shiftLeft x.toLong amount, toNat_shiftRight x amount, divisions_eq_error x,
    exists_quotRem x⟩

/-- The greatest number by ten. -/
theorem operations_natural_greatest :
    (⟨10, 0⟩ : ULong).toNat ≠ 0 ∧
      ∃ q r, greatest.quot ⟨10, 0⟩ = .ok q ∧ greatest.rem ⟨10, 0⟩ = .ok r ∧
        q.toNat = 1844674407370955161 ∧ r.toNat = 5 := by
  have nonzero : (⟨10, 0⟩ : ULong).toNat ≠ 0 := by decide
  obtain ⟨-, -, -, -, -, -, -, -, divides⟩ := operations_natural greatest ⟨10, 0⟩ 0
  obtain ⟨q, r, found, rest, quotient, remainder⟩ := divides nonzero
  exact ⟨nonzero, q, r, found, rest, quotient, remainder⟩

end CallByNeed.ULong
