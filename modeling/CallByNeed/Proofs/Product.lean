import CallByNeed.Proofs.Truncation
import Mathlib.Algebra.BigOperators.Intervals
import Mathlib.Algebra.BigOperators.Ring.Finset

set_option autoImplicit false

/-!
Products.

The slots hold a number between them, and moving a carry does not change it. So
after all deposits they hold the product, and once the carries are swept up each
slot is a limb of it.
-/

namespace CallByNeed.Integer

open Word (lowLimb highLimb)

namespace Slots

variable {slots : Slots} {i : Nat}

/-! One slot -/

@[simp] theorem getD_modify_self {f : Nat → Nat} (inside : i < slots.size) :
    (slots.modify i f).getD i 0 = f (slots.getD i 0) := by
  simp [Array.getD_eq_getD_getElem?, inside, Array.getElem_modify]

@[simp] theorem getD_modify_of_ne {j : Nat} (h : i ≠ j) (f : Nat → Nat) :
    (slots.modify i f).getD j 0 = slots.getD j 0 := by
  by_cases inside : j < slots.size
  · simp [Array.getD_eq_getD_getElem?, inside, Array.getElem_modify, h]
  · simp [Array.getD_eq_getD_getElem?, inside]

theorem getD_modify_le (f : Nat → Nat) :
    (slots.modify i f).getD i 0 ≤ f (slots.getD i 0) := by
  by_cases inside : i < slots.size
  · rw [getD_modify_self inside]
  · simp [Array.getD_eq_getD_getElem?, inside]

theorem toNat_eq_sum (slots : Slots) :
    slots.toNat = ∑ i ∈ Finset.range slots.size, slots.getD i 0 * 2 ^ (16 * i) := by
  obtain ⟨slots⟩ := slots
  show (Array.mk slots).foldr _ 0 = _
  rw [← Array.foldr_toList]
  simp only [List.size_toArray, Array.getD_eq_getD_getElem?, List.getElem?_toArray]
  induction slots with
  | nil => rfl
  | cons slot slots ih =>
    have tail : ∑ i ∈ Finset.range slots.length, (slot :: slots)[i + 1]?.getD 0 * 2 ^ (16 * (i + 1)) =
        0x10000 * ∑ i ∈ Finset.range slots.length, slots[i]?.getD 0 * 2 ^ (16 * i) := by
      rw [Finset.mul_sum]
      refine Finset.sum_congr rfl fun i _ => ?_
      rw [List.getElem?_cons_succ, Nat.mul_succ, Nat.pow_add]
      ring
    rw [List.foldr_cons, ih, List.length_cons, Finset.sum_range_succ', tail]
    simp [Nat.add_comm]

/-- A change of one slot counts with its weight; stated without subtraction. -/
theorem toNat_modify {f : Nat → Nat} (inside : i < slots.size) :
    toNat (slots.modify i f) + slots.getD i 0 * 2 ^ (16 * i) =
      toNat slots + f (slots.getD i 0) * 2 ^ (16 * i) := by
  rw [toNat_eq_sum, toNat_eq_sum, Array.size_modify]
  have member : i ∈ Finset.range slots.size := Finset.mem_range.mpr inside
  rw [← Finset.add_sum_erase _ _ member, ← Finset.add_sum_erase _ _ member,
    getD_modify_self inside]
  have others : ∑ j ∈ (Finset.range slots.size).erase i, (slots.modify i f).getD j 0 * 2 ^ (16 * j) =
      ∑ j ∈ (Finset.range slots.size).erase i, slots.getD j 0 * 2 ^ (16 * j) := by
    refine Finset.sum_congr rfl fun j other => ?_
    rw [getD_modify_of_ne (Finset.ne_of_mem_erase other).symm]
  rw [others]
  ring

/-! Carries and deposits -/

@[simp] theorem size_carry (slots : Slots) (i : Nat) : (carry slots i).size = slots.size := by
  simp [carry]

@[simp] theorem size_deposit (slots : Slots) (i amount : Nat) :
    (deposit slots i amount).size = slots.size := by
  simp [deposit]

theorem toNat_carry (inside : i + 1 < slots.size) : toNat (carry slots i) = toNat slots := by
  have inside' : i < (slots.modify (i + 1) (· + slots.getD i 0 / 0x10000)).size := by
    rw [Array.size_modify]
    omega
  have first := toNat_modify (f := (· + slots.getD i 0 / 0x10000)) inside
  have second := toNat_modify (f := (· % 0x10000)) inside'
  have split := Nat.div_add_mod (slots.getD i 0) 0x10000
  rw [getD_modify_of_ne (by omega)] at second
  have weights : slots.getD i 0 * 2 ^ (16 * i) = slots.getD i 0 / 0x10000 * 2 ^ (16 * (i + 1)) +
      slots.getD i 0 % 0x10000 * 2 ^ (16 * i) := by
    conv => lhs; rw [← split]
    rw [Nat.mul_succ, Nat.pow_add]
    ring
  rw [Nat.add_mul] at first
  show toNat ((slots.modify (i + 1) _).modify i _) = _
  omega

theorem toNat_deposit {amount : Nat} (inside : i + 1 < slots.size) :
    toNat (deposit slots i amount) = toNat slots + amount * 2 ^ (16 * i) := by
  have added := toNat_modify (f := (· + amount)) (Nat.lt_of_succ_lt inside)
  rw [deposit, toNat_carry (by rwa [Array.size_modify])]
  rw [Nat.add_mul] at added
  omega

/-! The last sweep -/

theorem getD_carry_self (slots : Slots) (i : Nat) : (carry slots i).getD i 0 < 2 ^ 16 :=
  Nat.lt_of_le_of_lt (getD_modify_le _) (Nat.mod_lt _ (by decide))

theorem getD_carry_of_ne {j : Nat} (h : j ≠ i) (h' : j ≠ i + 1) :
    (carry slots i).getD j 0 = slots.getD j 0 := by
  rw [carry, getD_modify_of_ne (by omega), getD_modify_of_ne (by omega)]

/-- The first slots are limbs once the carries have passed them. -/
theorem foldl_carry {n : Nat} (inside : n < slots.size) :
    ((List.range n).foldl carry slots).size = slots.size ∧
    toNat ((List.range n).foldl carry slots) = toNat slots ∧
    ∀ i < n, ((List.range n).foldl carry slots).getD i 0 < 2 ^ 16 := by
  induction n with
  | zero => simp
  | succ n ih =>
    obtain ⟨size, same, limbs⟩ := ih (by omega)
    rw [List.range_succ, List.foldl_append, List.foldl_cons, List.foldl_nil]
    refine ⟨by rw [size_carry, size], by rw [toNat_carry (by omega), same], fun i h => ?_⟩
    rcases Nat.lt_or_eq_of_le (Nat.le_of_lt_succ h) with below | rfl
    · rw [getD_carry_of_ne (by omega) (by omega)]
      exact limbs i below
    · exact getD_carry_self _ _

theorem toNat_ofLimbs {high low : Nat} (h : high < 2 ^ 16) (l : low < 2 ^ 16) :
    (Word.ofLimbs high low).toNat = high * 2 ^ 16 + low := by
  rw [Word.ofLimbs, UInt32.toNat_ofNat']
  omega

theorem wordsToNat_words {n : Nat} (limbs : ∀ i < 2 * n, slots.getD i 0 < 2 ^ 16) :
    wordsToNat (slots.words n) = ∑ i ∈ Finset.range (2 * n), slots.getD i 0 * 2 ^ (16 * i) := by
  induction n with
  | zero => rfl
  | succ n ih =>
    have words : slots.words (n + 1) =
        slots.words n ++ [Word.ofLimbs (slots.getD (2 * n + 1) 0) (slots.getD (2 * n) 0)] := by
      simp [Slots.words, List.range_succ]
    have length : (slots.words n).length = n := by simp [Slots.words]
    have even : 16 * (2 * n) = 32 * n := by omega
    have odd : 16 * (2 * n + 1) = 32 * n + 16 := by omega
    rw [words, wordsToNat_append, ih fun i h => limbs i (by omega), length, Nat.mul_succ,
      Finset.sum_range_succ, Finset.sum_range_succ, wordsToNat, wordsToNat,
      toNat_ofLimbs (limbs _ (by omega)) (limbs _ (by omega)), Nat.shiftLeft_eq, even, odd,
      Nat.pow_add]
    ring

end Slots

/-! Limb products -/

/-- What the deposits add up to. -/
def weight (amounts : List (Nat × Nat)) : Nat :=
  (amounts.map fun (i, amount) => amount * 2 ^ (16 * i)).sum

@[simp] theorem weight_append (first second : List (Nat × Nat)) :
    weight (first ++ second) = weight first + weight second := by
  simp [weight]

theorem toNat_depositAll {slots : Slots} {amounts : List (Nat × Nat)}
    (inside : ∀ deposit ∈ amounts, deposit.1 + 1 < slots.size) :
    (depositAll slots amounts).size = slots.size ∧
    (depositAll slots amounts).toNat = slots.toNat + weight amounts := by
  induction amounts generalizing slots with
  | nil => simp [depositAll, weight]
  | cons deposit amounts ih =>
    obtain ⟨i, amount⟩ := deposit
    have first : i + 1 < slots.size := inside (i, amount) (by simp)
    have rest : ∀ other ∈ amounts, other.1 + 1 < (slots.deposit i amount).size := by
      intro other member
      rw [Slots.size_deposit]
      exact inside other (by simp [member])
    obtain ⟨size, value⟩ := ih rest
    rw [Slots.size_deposit] at size
    rw [Slots.toNat_deposit first] at value
    refine ⟨size, value.trans ?_⟩
    simp [weight, Nat.add_assoc]

theorem limbs_toNat (w : UInt32) : w.toNat = highLimb w * 2 ^ 16 + lowLimb w := by
  unfold highLimb lowLimb
  omega

theorem weight_wordDeposits (a b : UInt32) (i j : Nat) :
    weight (wordDeposits a b i j) = a.toNat * b.toNat * 2 ^ (32 * i) * 2 ^ (32 * j) := by
  have shifted (n : Nat) :
      2 ^ (16 * (2 * i + 2 * j + n)) = 2 ^ (32 * i) * 2 ^ (32 * j) * 2 ^ (16 * n) := by
    rw [← Nat.pow_add, ← Nat.pow_add]
    congr 1
    omega
  have base := shifted 0
  have next := shifted 1
  have last := shifted 2
  rw [limbs_toNat a, limbs_toNat b]
  simp only [weight, wordDeposits, List.map_cons, List.map_nil, List.sum_cons, List.sum_nil]
  rw [next, last, ← Nat.add_zero (2 * i + 2 * j), base]
  generalize 2 ^ (32 * i) = p, 2 ^ (32 * j) = q
  ring

theorem weight_row (a : UInt32) (bs : List UInt32) (i k : Nat) :
    weight ((bs.zipIdx k).flatMap fun (b, j) => wordDeposits a b i j) =
      a.toNat * wordsToNat bs * 2 ^ (32 * i) * 2 ^ (32 * k) := by
  induction bs generalizing k with
  | nil => simp [weight, wordsToNat]
  | cons b bs ih =>
    rw [List.zipIdx_cons, List.flatMap_cons, weight_append, ih, weight_wordDeposits, wordsToNat,
      Nat.mul_succ, Nat.pow_add]
    ring

theorem weight_rows (as bs : List UInt32) (k : Nat) :
    weight ((as.zipIdx k).flatMap fun (a, i) =>
      bs.zipIdx.flatMap fun (b, j) => wordDeposits a b i j) =
      wordsToNat as * wordsToNat bs * 2 ^ (32 * k) := by
  induction as generalizing k with
  | nil => simp [weight, wordsToNat]
  | cons a as ih =>
    rw [List.zipIdx_cons, List.flatMap_cons, weight_append, ih, weight_row, wordsToNat,
      Nat.mul_succ, Nat.pow_add]
    ring

@[simp] theorem weight_deposits (as bs : List UInt32) :
    weight (deposits as bs) = wordsToNat as * wordsToNat bs := by
  rw [deposits, weight_rows]
  simp

/-- Every deposit and its carry have a slot. -/
theorem deposits_inside {as bs : List UInt32} {deposit : Nat × Nat}
    (member : deposit ∈ deposits as bs) : deposit.1 + 1 < 2 * (as.length + bs.length) := by
  simp only [deposits, List.mem_flatMap] at member
  obtain ⟨⟨a, i⟩, row, ⟨b, j⟩, column, product⟩ := member
  have first := (List.mem_zipIdx row).2.1
  have second := (List.mem_zipIdx column).2.1
  simp only [wordDeposits, List.mem_cons, List.not_mem_nil, or_false] at product
  rcases product with rfl | rfl | rfl | rfl <;> dsimp only <;> omega

@[simp] theorem size_emptySlots (as bs : List UInt32) :
    (emptySlots as bs).size = 2 * (as.length + bs.length) + 1 := by
  simp [emptySlots]

theorem deposits_inside_emptySlots (as bs : List UInt32) :
    ∀ deposit ∈ deposits as bs, deposit.1 + 1 < (emptySlots as bs).size := by
  intro deposit member
  have := deposits_inside member
  rw [size_emptySlots]
  omega

@[simp]
theorem getD_emptySlots (as bs : List UInt32) (i : Nat) : (emptySlots as bs).getD i 0 = 0 := by
  by_cases inside : i < 2 * (as.length + bs.length) + 1 <;>
    simp [emptySlots, Array.getD_eq_getD_getElem?, inside]

@[simp] theorem toNat_emptySlots (as bs : List UInt32) : (emptySlots as bs).toNat = 0 := by
  rw [Slots.toNat_eq_sum]
  apply Finset.sum_eq_zero
  intro i _
  rw [getD_emptySlots, Nat.zero_mul]

theorem eq_of_add_mul_lt {low last unit total : Nat} (sum : low + last * unit = total)
    (bound : total < unit) : low = total := by
  cases last with
  | zero => simpa using sum
  | succ last =>
    rw [Nat.succ_mul] at sum
    omega

theorem wordsToNat_mul_lt (as bs : List UInt32) :
    wordsToNat as * wordsToNat bs < 2 ^ (16 * (2 * (as.length + bs.length))) := by
  have split : 16 * (2 * (as.length + bs.length)) = 32 * as.length + 32 * bs.length := by omega
  have first := wordsToNat_lt as
  have second := wordsToNat_lt bs
  rw [Nat.one_shiftLeft] at first second
  rw [split, Nat.pow_add]
  exact Nat.mul_lt_mul'' first second

/-- The product is below the weight of the last slot, which is empty then. -/
theorem wordsToNat_product (as bs : List UInt32) :
    wordsToNat (((depositAll (emptySlots as bs) (deposits as bs)).sweep).words
      (as.length + bs.length)) = wordsToNat as * wordsToNat bs := by
  have size := size_emptySlots as bs
  obtain ⟨filled, value⟩ := toNat_depositAll (deposits_inside_emptySlots as bs)
  rw [toNat_emptySlots, weight_deposits, Nat.zero_add] at value
  have last : 2 * (as.length + bs.length) <
      (depositAll (emptySlots as bs) (deposits as bs)).size := by omega
  obtain ⟨swept, kept, limbs⟩ := Slots.foldl_carry last
  rw [Slots.sweep, filled, size, Nat.add_sub_cancel, Slots.wordsToNat_words limbs]
  rw [Slots.toNat_eq_sum, swept, filled, size, Finset.sum_range_succ, value] at kept
  exact eq_of_add_mul_lt kept (wordsToNat_mul_lt as bs)

/-! Factors of either sign -/

theorem toInt_of_not_negative {a : Integer} (positive : a.negative = false) :
    a.toInt = wordsToNat a.words := by
  simp [toInt, denote, positive]

theorem negative_neg {a : Integer} (negative : a.negative = true) : (-a).negative = false := by
  have below := (toInt_lt_zero_iff a).mpr negative
  rw [← Bool.not_eq_true, ← toInt_lt_zero_iff, toInt_neg]
  omega

theorem toInt_mulLimbs {a b : Integer} (ha : a.negative = false) (hb : b.negative = false) :
    (mulLimbs a b).toInt = a.toInt * b.toInt := by
  rw [mulLimbs, toInt_make, denote, wordsToNat_product, toInt_of_not_negative ha,
    toInt_of_not_negative hb]
  simp

theorem isNat_sumOfWords (w : UInt32) : (sumOfWords 0 1 [w]).IsNat w.toNat := by
  have bound := w.toNat_lt
  have zero : (0 : Double).IsNat 0 := Floating.isNat_ofInt (n := 0) (by decide)
  have word := Floating.isNat_ofInt (n := w.toNat) (by omega)
  have unit := word.mul Floating.isNat_one (Format.onGrid_nat (by omega))
  show (0 + Floating.ofInt w.toNat * 1 : Double).IsNat w.toNat
  simpa using zero.add unit (Format.onGrid_nat (by omega))

/-- A small factor is a double without rounding. -/
theorem isNat_toDouble {a : Integer} (small : a.isSmallFactor = true) :
    a.toDouble.IsNat a.toInt.toNat ∧ 0 ≤ a.toInt ∧ a.toInt < 2 ^ 24 := by
  obtain ⟨words, negative⟩ := a
  simp only [isSmallFactor, Bool.and_eq_true, Bool.not_eq_true', decide_eq_true_eq] at small
  obtain ⟨⟨rfl, short⟩, low⟩ := small
  match words, short with
  | [], _ => exact ⟨Floating.isNat_ofInt (n := 0) (by decide), by decide, by decide⟩
  | [w], _ =>
    have value : (⟨[w], false⟩ : Integer).toInt = w.toNat := by simp [toInt, denote, wordsToNat]
    have word : w.toNat < 2 ^ 24 := low
    rw [value]
    exact ⟨isNat_sumOfWords w, by omega, by omega⟩

theorem toInt_mulPositive {a b : Integer} (ha : a.negative = false) (hb : b.negative = false) :
    (mulPositive a b).toInt = a.toInt * b.toInt := by
  unfold mulPositive
  split
  · next small =>
    rw [Bool.and_eq_true] at small
    obtain ⟨first, low, high⟩ := isNat_toDouble small.1
    obtain ⟨second, low', high'⟩ := isNat_toDouble small.2
    have bound : a.toInt.toNat * b.toInt.toNat ≤ 2 ^ 24 * 2 ^ 24 :=
      Nat.mul_le_mul (by omega) (by omega)
    have product := first.mul second (Format.onGrid_nat (Nat.le_trans bound (by decide)))
    rw [toInt_ofDouble, product.toInt, Int.natCast_mul, Int.toNat_of_nonneg low,
      Int.toNat_of_nonneg low']
  · exact toInt_mulLimbs ha hb

theorem toInt_of_isZero {a : Integer} (zero : a.isZero = true) : a.toInt = 0 := by
  obtain ⟨words, negative⟩ := a
  simp only [isZero, Bool.and_eq_true, Bool.not_eq_true', List.isEmpty_iff] at zero
  obtain ⟨rfl, rfl⟩ := zero
  rfl

@[simp] theorem toInt_mul (a b : Integer) : (a * b).toInt = a.toInt * b.toInt := by
  show (Integer.mul a b).toInt = _
  unfold Integer.mul
  split
  · next none =>
    rcases Bool.or_eq_true_iff.mp none with first | second
    · rw [toInt_of_isZero first, Int.zero_mul, toInt_zero]
    · rw [toInt_of_isZero second, Int.mul_zero, toInt_zero]
  · split
    · next ha hb =>
      rw [toInt_mulPositive (negative_neg ha) (negative_neg hb), toInt_neg, toInt_neg]
      ring
    · next ha hb =>
      rw [toInt_neg, toInt_mulPositive (negative_neg ha) hb, toInt_neg]
      ring
    · next ha hb =>
      rw [toInt_neg, toInt_mulPositive ha (negative_neg hb), toInt_neg]
      ring
    · next ha hb => exact toInt_mulPositive ha hb

end CallByNeed.Integer
