import CallByNeed.Proofs.Multiplication

set_option autoImplicit false

/-!
Pairs of words as words of 64 bits in two's complement.

Arithmetic is that of the integers modulo `2 ^ 64`. Shifts cross from one half into the other:
by less than a half both keep part of their bits, by more only one of them does.
-/

namespace CallByNeed.Long

/-- The pair as one word of 64 bits. -/
def word (x : Long) : BitVec 64 := x.high.toBitVec ++ x.low.toBitVec

@[simp] theorem toNat_word (x : Long) : x.word.toNat = x.bits := by
  have low := x.low.toNat_lt
  rw [word, BitVec.toNat_append, Nat.shiftLeft_eq, bits]
  exact (Nat.mul_comm (2 ^ 32) _ ▸ Nat.two_pow_add_eq_or_of_lt low x.high.toNat).symm

@[simp] theorem toInt_word (x : Long) : x.word.toInt = x.toInt := by
  rw [BitVec.toInt_eq_toNat_cond, toNat_word, toInt_eq]
  have := x.bits_lt
  omega

/-! The bits of a word -/

theorem getLsbD_word_low (x : Long) {i : Nat} (inside : i < 32) :
    x.word.getLsbD i = x.low.toBitVec.getLsbD i := by
  rw [word, BitVec.getLsbD_append, if_pos inside]

theorem getLsbD_word_high (x : Long) (i : Nat) :
    x.word.getLsbD (32 + i) = x.high.toBitVec.getLsbD i := by
  rw [word, BitVec.getLsbD_append, if_neg (by omega), Nat.add_sub_cancel_left]

/-- Words are equal if their halves are. -/
theorem word_mk_eq {low high : UInt32} {v : BitVec 64}
    (lows : ∀ i < 32, low.toBitVec.getLsbD i = v.getLsbD i)
    (highs : ∀ i < 32, high.toBitVec.getLsbD i = v.getLsbD (32 + i)) : word ⟨low, high⟩ = v := by
  apply BitVec.eq_of_getLsbD_eq
  intro i inside
  by_cases below : i < 32
  · rw [getLsbD_word_low _ below, lows i below]
  · obtain ⟨j, rfl⟩ := Nat.exists_eq_add_of_le (Nat.le_of_not_lt below)
    rw [getLsbD_word_high, highs j (by omega)]

@[simp] theorem msb_high (x : Long) : x.high.toBitVec.msb = x.isNegative := BitVec.msb_eq_decide _

@[simp] theorem msb_word (x : Long) : x.word.msb = x.isNegative := by
  rw [word, BitVec.msb_append, ← msb_high]
  rfl

/-- The word that the sign fills. -/
theorem getLsbD_fill (negative : Bool) {i : Nat} (inside : i < 32) :
    (if negative then 0xFFFFFFFF else 0 : UInt32).toBitVec.getLsbD i = negative := by
  cases negative with
  | false => exact BitVec.getLsbD_zero
  | true =>
    show (BitVec.allOnes 32).getLsbD i = true
    rw [BitVec.getLsbD_allOnes, decide_eq_true inside]

/-! Right shifts -/

section Half

variable (w : UInt32) {s : UInt32} (small : s.toNat < 32)
include small

theorem toNat_toBitVec_mod : (s.toBitVec % 32).toNat = s.toNat := Nat.mod_eq_of_lt small

theorem toBitVec_shiftRight : (w >>> s).toBitVec = w.toBitVec >>> s.toNat := by
  rw [UInt32.toBitVec_shiftRight, BitVec.ushiftRight_eq', toNat_toBitVec_mod small]

theorem toBitVec_shiftLeft : (w <<< s).toBitVec = w.toBitVec <<< s.toNat := by
  rw [UInt32.toBitVec_shiftLeft, BitVec.shiftLeft_eq', toNat_toBitVec_mod small]

theorem toBitVec_arithmetic :
    (w.toInt32 >>> s.toInt32).toUInt32.toBitVec = w.toBitVec.sshiftRight s.toNat := by
  show w.toBitVec.sshiftRight' (s.toBitVec.smod 32) = _
  have positive : s.toBitVec.msb = false := by
    rw [BitVec.msb_eq_false_iff_two_mul_lt]
    show 2 * s.toNat < 2 ^ 32
    omega
  have amount : s.toBitVec.smod 32 = s.toBitVec % 32 := by
    rw [BitVec.smod_eq, positive]
    rfl
  rw [amount, BitVec.sshiftRight_eq', toNat_toBitVec_mod small]

end Half

section Few

variable {s : UInt32} (some : s ≠ 0) (few : s < 32)
include some few

/-- The low word takes in what leaves the high one. -/
theorem getLsbD_low_shifted (x : Long) {i : Nat} (inside : i < 32) :
    ((x.low >>> s) ||| (x.high <<< (32 - s))).toBitVec.getLsbD i =
      x.word.getLsbD (s.toNat + i) := by
  have positive : s.toNat ≠ 0 := fun zero => some (UInt32.toNat_inj.mp zero)
  have below : s.toNat < 32 := UInt32.lt_iff_toNat_lt.mp few
  have rest := toNat_word_sub few
  rw [UInt32.toBitVec_or, toBitVec_shiftRight _ below, toBitVec_shiftLeft _ (by omega), rest,
    BitVec.getLsbD_or, BitVec.getLsbD_ushiftRight, BitVec.getLsbD_shiftLeft]
  by_cases low : s.toNat + i < 32
  · rw [getLsbD_word_low _ low]
    simp [show i < 32 - s.toNat by omega]
  · obtain ⟨j, split⟩ := Nat.exists_eq_add_of_le (Nat.le_of_not_lt low)
    rw [split, getLsbD_word_high, BitVec.getLsbD_of_ge _ _ (by omega),
      show i - (32 - s.toNat) = j by omega]
    simp [inside, show ¬ i < 32 - s.toNat by omega]

theorem word_shiftRightUnsigned_of_lt (x : Long) :
    word ⟨(x.low >>> s) ||| (x.high <<< (32 - s)), x.high >>> s⟩ = x.word >>> s.toNat := by
  have below : s.toNat < 32 := UInt32.lt_iff_toNat_lt.mp few
  apply word_mk_eq
  · intro i inside
    rw [getLsbD_low_shifted some few x inside, BitVec.getLsbD_ushiftRight]
  · intro i _
    rw [toBitVec_shiftRight _ below, BitVec.getLsbD_ushiftRight, BitVec.getLsbD_ushiftRight,
      Nat.add_left_comm, getLsbD_word_high]

theorem word_shiftRight_of_lt (x : Long) :
    word ⟨(x.low >>> s) ||| (x.high <<< (32 - s)), (x.high.toInt32 >>> s.toInt32).toUInt32⟩ =
      x.word.sshiftRight s.toNat := by
  have below : s.toNat < 32 := UInt32.lt_iff_toNat_lt.mp few
  apply word_mk_eq
  · intro i inside
    rw [getLsbD_low_shifted some few x inside, BitVec.getLsbD_sshiftRight, if_pos (by omega)]
    simp [show ¬ 64 ≤ i by omega]
  · intro i inside
    rw [toBitVec_arithmetic _ below, BitVec.getLsbD_sshiftRight, BitVec.getLsbD_sshiftRight,
      Nat.add_left_comm, getLsbD_word_high, msb_word, msb_high]
    simp [show ¬ 32 ≤ i by omega, show ¬ 64 ≤ 32 + i by omega,
      show (32 + (s.toNat + i) < 64 ↔ s.toNat + i < 32) by omega]

end Few

section Many

variable {s : UInt32} (large : 32 ≤ s) (small : s.toNat < 64)
include large small

theorem toNat_sub_word_lt : (s - 32).toNat < 32 ∧ s.toNat = 32 + (s - 32).toNat := by
  have above : 32 ≤ s.toNat := UInt32.le_iff_toNat_le.mp large
  have rest := toNat_sub_word large
  omega

theorem word_shiftRightUnsigned_of_ge (x : Long) :
    word ⟨x.high >>> (s - 32), 0⟩ = x.word >>> s.toNat := by
  obtain ⟨below, split⟩ := toNat_sub_word_lt large small
  rw [split]
  apply word_mk_eq
  · intro i _
    rw [toBitVec_shiftRight _ below, BitVec.getLsbD_ushiftRight, BitVec.getLsbD_ushiftRight,
      Nat.add_assoc, getLsbD_word_high]
  · intro i _
    rw [BitVec.getLsbD_ushiftRight, BitVec.getLsbD_of_ge x.word _ (by omega)]
    simp

theorem word_shiftRight_of_ge (x : Long) :
    word ⟨(x.high.toInt32 >>> (s - 32).toInt32).toUInt32,
      if x.isNegative then 0xFFFFFFFF else 0⟩ = x.word.sshiftRight s.toNat := by
  obtain ⟨below, split⟩ := toNat_sub_word_lt large small
  rw [split]
  apply word_mk_eq
  · intro i inside
    rw [toBitVec_arithmetic _ below, BitVec.getLsbD_sshiftRight, BitVec.getLsbD_sshiftRight,
      Nat.add_assoc, getLsbD_word_high, msb_word, msb_high]
    simp [show ¬ 32 ≤ i by omega, show ¬ 64 ≤ i by omega,
      show (32 + ((s - 32).toNat + i) < 64 ↔ (s - 32).toNat + i < 32) by omega]
  · intro i inside
    rw [getLsbD_fill _ inside, BitVec.getLsbD_sshiftRight, msb_word, if_neg (by omega)]
    simp [show ¬ 64 ≤ 32 + i by omega]

end Many

@[simp] theorem word_shiftRightUnsigned (x : Long) (amount : UInt32) :
    (x.shiftRightUnsigned amount).word = x.word >>> (amount.toNat % 64) := by
  have count : (amount % 64).toNat = amount.toNat % 64 := UInt32.toNat_mod ..
  have small : (amount % 64).toNat < 64 := by omega
  unfold shiftRightUnsigned
  dsimp only
  rw [← count]
  split
  · next none => rw [none, UInt32.toNat_zero, BitVec.ushiftRight_zero]
  split
  · next some few => exact word_shiftRightUnsigned_of_lt some few x
  · next some many => exact word_shiftRightUnsigned_of_ge (UInt32.not_lt.mp many) small x

@[simp] theorem word_shiftRight (x : Long) (amount : UInt32) :
    (x.shiftRight amount).word = x.word.sshiftRight (amount.toNat % 64) := by
  have count : (amount % 64).toNat = amount.toNat % 64 := UInt32.toNat_mod ..
  have small : (amount % 64).toNat < 64 := by omega
  unfold shiftRight
  dsimp only
  rw [← count]
  split
  · next none => rw [none, UInt32.toNat_zero, BitVec.sshiftRight_zero]
  split
  · next some few => exact word_shiftRight_of_lt some few x
  · next some many => exact word_shiftRight_of_ge (UInt32.not_lt.mp many) small x

/-! All operations -/

@[simp] theorem word_shiftLeft (x : Long) (amount : UInt32) :
    (x.shiftLeft amount).word = x.word <<< (amount.toNat % 64) := by
  apply BitVec.eq_of_toNat_eq
  rw [toNat_word, bits_shiftLeft, BitVec.toNat_shiftLeft, toNat_word, Nat.shiftLeft_eq]

/-- Sums, differences, products and opposites are exact modulo `2 ^ 64`, the order is that of the
integers, and shifts are those of the word, by the amount modulo 64. The recursion of the
product ends with this product and no other. -/
theorem operations_exact_modulo (x y : Long) (amount : UInt32) :
    x.word.toInt = x.toInt ∧
    (x + y).toInt = (x.toInt + y.toInt).bmod (2 ^ 64) ∧
    (x - y).toInt = (x.toInt - y.toInt).bmod (2 ^ 64) ∧
    (x * y).toInt = (x.toInt * y.toInt).bmod (2 ^ 64) ∧
    (-x).toInt = (-x.toInt).bmod (2 ^ 64) ∧
    compare x y = compare x.toInt y.toInt ∧
    (x.shiftLeft amount).word = x.word <<< (amount.toNat % 64) ∧
    (x.shiftRight amount).word = x.word.sshiftRight (amount.toNat % 64) ∧
    (x.shiftRightUnsigned amount).word = x.word >>> (amount.toNat % 64) ∧
    ∀ z, multiplier.Runs x y z ↔ z = x * y := by
  have sum : x + y = ofInt (x.toInt + y.toInt) := by
    rw [ofInt_add, ofInt_toInt, ofInt_toInt]
  refine ⟨toInt_word x, ?_, ?_, ?_, ?_, compare_eq x y, word_shiftLeft x amount,
    word_shiftRight x amount, word_shiftRightUnsigned x amount, fun z => ?_⟩
  · rw [sum, toInt_ofInt_bmod]
  · rw [sub_eq_ofInt, toInt_ofInt_bmod]
  · rw [mul_eq_ofInt, toInt_ofInt_bmod]
  · rw [neg_eq_ofInt, toInt_ofInt_bmod]
  · rw [turns_multiplier.runs_iff, mul_eq_product]

end CallByNeed.Long
