import CallByNeed.Proofs.Denotation
import Mathlib.Data.Int.Bitwise

set_option autoImplicit false

/-!
Bits of integers. The words of an integer hold the bits of its two's complement
expansion, so operations that go word by word go bit by bit, and are the ones on the
integers that are denoted.
-/

namespace CallByNeed.Integer

theorem testBit_eq_decide (n : Int) (i : Nat) : n.testBit i = decide (n / 2 ^ i % 2 = 1) := by
  cases n with
  | ofNat m =>
    show m.testBit i = decide ((m : Int) / 2 ^ i % 2 = 1)
    rw [Nat.testBit_eq_decide_div_mod_eq, decide_eq_decide]
    norm_cast
  | negSucc m =>
    have positive : (0 : Int) < 2 ^ i := Int.pow_pos (by decide)
    have quotient : Int.negSucc m / 2 ^ i = -((m / 2 ^ i : Nat) + 1) := by
      rw [Int.negSucc_ediv m positive]
      norm_cast
    show (!m.testBit i) = decide (Int.negSucc m / 2 ^ i % 2 = 1)
    rw [Nat.testBit_eq_decide_div_mod_eq, ← decide_not, decide_eq_decide, quotient]
    omega

/-- Far enough up the bits repeat the sign. -/
theorem exists_testBit_eq_sign (n : Int) : ∃ k, ∀ i, k ≤ i → n.testBit i = decide (n < 0) := by
  have high (m i : Nat) (above : m ≤ i) : m.testBit i = false :=
    Nat.testBit_lt_two_pow (above.trans_lt i.lt_two_pow_self)
  cases n with
  | ofNat m =>
    refine ⟨m, fun i above => ?_⟩
    show m.testBit i = _
    simp [high m i above]
  | negSucc m =>
    refine ⟨m, fun i above => ?_⟩
    show (!m.testBit i) = _
    simp [high m i above, Int.negSucc_lt_zero]

theorem eq_of_testBit_eq {n m : Int} (same : ∀ i, n.testBit i = m.testBit i) : n = m := by
  have signs : n < 0 ↔ m < 0 := by
    obtain ⟨j, left⟩ := exists_testBit_eq_sign n
    obtain ⟨k, right⟩ := exists_testBit_eq_sign m
    rw [← decide_eq_decide, ← left (max j k) (Nat.le_max_left j k),
      ← right (max j k) (Nat.le_max_right j k), same]
  cases n with
  | ofNat n =>
    cases m with
    | ofNat m => exact congrArg Int.ofNat (Nat.eq_of_testBit_eq same)
    | negSucc m => exact absurd (signs.mpr (Int.negSucc_lt_zero m)) (Int.natCast_nonneg n).not_gt
  | negSucc n =>
    cases m with
    | ofNat m => exact absurd (signs.mp (Int.negSucc_lt_zero n)) (Int.natCast_nonneg m).not_gt
    | negSucc m =>
      exact congrArg Int.negSucc (Nat.eq_of_testBit_eq fun i => Bool.not_inj (same i))

theorem testBit_toNat_ofInt (n : Int) {i : Nat} (low : i < 32) :
    (UInt32.ofInt n).toNat.testBit i = n.testBit i := by
  have positive : (0 : Int) < 2 ^ i := Int.pow_pos (by decide)
  have word : (2 : Int) ^ 32 = 2 ^ i * (2 * 2 ^ (31 - i)) := by
    rw [← Int.pow_succ', ← Int.pow_add]
    congr 1
    omega
  -- The word and the integer differ by a multiple of the double of the bit's weight.
  have split : n / 2 ^ i =
      ((UInt32.ofInt n).toNat : Int) / 2 ^ i + 2 * (2 ^ (31 - i) * (n / 2 ^ 32)) := by
    rw [← Int.add_mul_ediv_left _ _ positive.ne', ← Int.mul_assoc 2, ← Int.mul_assoc, ← word,
      Word.toNat_ofInt, Int.emod_add_mul_ediv]
  rw [testBit_eq_decide, Nat.testBit_eq_decide_div_mod_eq, decide_eq_decide, split,
    Int.add_mul_emod_self_left]
  norm_cast

/-- A bit of the infinite sequence, in which words have 32 bits each. -/
def bit (a : Integer) (i : Nat) : Bool := (a.wordAt (i / 32)).toNat.testBit (i % 32)

theorem testBit_toInt (a : Integer) (i : Nat) : a.toInt.testBit i = a.bit i := by
  have positive : (0 : Int) ≤ 2 ^ (32 * (i / 32)) := Int.le_of_lt (Int.pow_pos (by decide))
  rw [bit, wordAt_eq, testBit_toNat_ofInt _ (Nat.mod_lt _ (by decide)), testBit_eq_decide,
    testBit_eq_decide, Int.ediv_ediv_of_nonneg positive, ← Int.pow_add, Nat.div_add_mod]

variable (a b : Integer) (i : Nat)

theorem testBit_and : (a.and b).toInt.testBit i = (a.toInt.testBit i && b.toInt.testBit i) := by
  simp only [testBit_toInt, bit, wordAt_and, UInt32.toNat_and, Nat.testBit_and]

theorem testBit_or : (a.or b).toInt.testBit i = (a.toInt.testBit i || b.toInt.testBit i) := by
  simp only [testBit_toInt, bit, wordAt_or, UInt32.toNat_or, Nat.testBit_or]

theorem testBit_xor : (a.xor b).toInt.testBit i = (a.toInt.testBit i ^^ b.toInt.testBit i) := by
  simp only [testBit_toInt, bit, wordAt_xor, UInt32.toNat_xor, Nat.testBit_xor]

theorem testBit_complement : a.complement.toInt.testBit i = !a.toInt.testBit i := by
  have flipped : -a.toInt - 1 = a.toInt.lnot := by
    cases a.toInt with
    | ofNat n =>
      show -(n : Int) - 1 = Int.negSucc n
      omega
    | negSucc n =>
      show -Int.negSucc n - 1 = (n : Int)
      omega
  rw [toInt_complement, flipped, Int.testBit_lnot]

/-- At every place, inside the words of the result or beyond them, the bit of a conjunction,
disjunction, exclusive disjunction or complement is the one of the bits of the integers. -/
theorem bits_bitwise :
    a.bit i = a.toInt.testBit i ∧
    (a.and b).bit i = (a.toInt.testBit i && b.toInt.testBit i) ∧
    (a.or b).bit i = (a.toInt.testBit i || b.toInt.testBit i) ∧
    (a.xor b).bit i = (a.toInt.testBit i ^^ b.toInt.testBit i) ∧
    a.complement.bit i = !a.toInt.testBit i := by
  rw [← testBit_toInt, ← testBit_toInt, ← testBit_toInt, ← testBit_toInt, ← testBit_toInt]
  exact ⟨rfl, testBit_and a b i, testBit_or a b i, testBit_xor a b i, testBit_complement a i⟩

@[simp] theorem toInt_and : (a.and b).toInt = a.toInt.land b.toInt :=
  eq_of_testBit_eq fun i => by rw [testBit_and, Int.testBit_land]

@[simp] theorem toInt_or : (a.or b).toInt = a.toInt.lor b.toInt :=
  eq_of_testBit_eq fun i => by rw [testBit_or, Int.testBit_lor]

@[simp] theorem toInt_xor : (a.xor b).toInt = a.toInt.xor b.toInt :=
  eq_of_testBit_eq fun i => by rw [testBit_xor, Int.testBit_lxor]

end CallByNeed.Integer
