import CallByNeed.Proofs.Quotient
import Mathlib.Algebra.Order.BigOperators.Group.Finset

set_option autoImplicit false

/-!
The slots of a product while it is made.

At any time all slots but one hold limbs. The exception is the slot that the last carry went
to, and it holds little more than two limbs until the next deposits reach it. At the end of a
row no slot is reached any more, but then the number that the slots hold is too small for more
than a limb there. So no slot ever comes near `2 ^ 53`, and the sweep leaves limbs only.
-/

namespace CallByNeed.Integer

open Word (lowLimb highLimb)

namespace Slots

variable {slots : Slots} {low high i : Nat}

/-! One step -/

/-- All slots are below one bound, except for one that is below another. -/
structure Loose (low high i : Nat) (slots : Slots) : Prop where
  others : ∀ j ≠ i, slots.getD j 0 < low
  self : slots.getD i 0 < high

theorem Loose.mono {high' : Nat} (loose : Loose low high i slots) (wider : high ≤ high') :
    Loose low high' i slots :=
  ⟨loose.others, loose.self.trans_le wider⟩

theorem loose_of_forall (below : ∀ j, slots.getD j 0 < low) (i : Nat) : Loose low low i slots :=
  ⟨fun j _ => below j, below i⟩

theorem Loose.lt {bound : Nat} (loose : Loose low high i slots) (small : low ≤ bound)
    (small' : high ≤ bound) (j : Nat) : slots.getD j 0 < bound := by
  by_cases same : j = i
  · rw [same]
    exact loose.self.trans_le small'
  · exact (loose.others j same).trans_le small

theorem Loose.add (loose : Loose low high i slots) (amount : Nat) :
    Loose low (high + amount) i (slots.modify i (· + amount)) := by
  constructor
  · intro j other
    rw [getD_modify_of_ne other.symm]
    exact loose.others j other
  · exact (getD_modify_le _).trans_lt (Nat.add_lt_add_right loose.self amount)

theorem getD_carry_succ_le (slots : Slots) (i : Nat) :
    (carry slots i).getD (i + 1) 0 ≤ slots.getD (i + 1) 0 + slots.getD i 0 / 0x10000 := by
  rw [carry, getD_modify_of_ne (by omega)]
  exact getD_modify_le _

/-- A carry makes a limb of its slot and loosens the next. -/
theorem Loose.carry (loose : Loose low high i slots) (wide : 2 ^ 16 ≤ low) :
    Loose low (low + high / 0x10000) (i + 1) (carry slots i) := by
  constructor
  · intro j other
    by_cases same : j = i
    · rw [same]
      exact (getD_carry_self slots i).trans_le wide
    · rw [getD_carry_of_ne same other]
      exact loose.others j same
  · have moved := getD_carry_succ_le slots i
    have next := loose.others (i + 1) (by omega)
    have carried := Nat.div_le_div_right (c := 0x10000) loose.self.le
    omega

/-- A limb product that goes to the loose slot. -/
theorem Loose.deposit {amount : Nat} (loose : Loose (2 ^ 16) high i slots) (small : high ≤ 2 ^ 19)
    (product : amount < 2 ^ 32) :
    Loose (2 ^ 16) (2 ^ 17 + 2 ^ 3) (i + 1) (deposit slots i amount) :=
  ((loose.add amount).carry (Nat.le_refl _)).mono (by omega)

/-- A limb product that goes to the slot before the loose one. What is carried over is a
limb. -/
theorem Loose.deposit_before {amount : Nat} (loose : Loose (2 ^ 16) high (i + 1) slots)
    (product : amount ≤ (2 ^ 16 - 1) * (2 ^ 16 - 1)) :
    Loose (2 ^ 16) (high + 2 ^ 16) (i + 1) (Slots.deposit slots i amount) := by
  have limb := loose.others i (by omega)
  have added : (slots.modify i (· + amount)).getD i 0 ≤ slots.getD i 0 + amount :=
    getD_modify_le _
  constructor
  · intro j other
    by_cases same : j = i
    · rw [same]
      exact getD_carry_self _ i
    · rw [Slots.deposit, getD_carry_of_ne same other, getD_modify_of_ne (Ne.symm same)]
      exact loose.others j other
  · have moved := getD_carry_succ_le (slots.modify i (· + amount)) i
    have next := loose.self
    rw [getD_modify_of_ne (by omega)] at moved
    rw [Slots.deposit]
    omega

/-- The weight of a slot bounds it. -/
theorem getD_mul_le_toNat (slots : Slots) (i : Nat) :
    slots.getD i 0 * 2 ^ (16 * i) ≤ slots.toNat := by
  rw [toNat_eq_sum]
  by_cases inside : i < slots.size
  · exact Finset.single_le_sum (f := fun i => slots.getD i 0 * 2 ^ (16 * i))
      (fun _ _ => Nat.zero_le _) (Finset.mem_range.mpr inside)
  · simp [Array.getD_eq_getD_getElem?, inside]

theorem getD_lt_of_toNat_lt {k : Nat} (bound : slots.toNat < 2 ^ (16 * i + k)) :
    slots.getD i 0 < 2 ^ k := by
  have weight := (getD_mul_le_toNat slots i).trans_lt bound
  rw [Nat.pow_add, Nat.mul_comm (2 ^ (16 * i))] at weight
  exact Nat.lt_of_mul_lt_mul_right weight

theorem loose_foldl_carry (small : ∀ i, slots.getD i 0 < 2 ^ 19) (k : Nat) :
    Loose (2 ^ 19) (2 ^ 20) k ((List.range k).foldl Slots.carry slots) := by
  induction k with
  | zero => exact (loose_of_forall small 0).mono (by decide)
  | succ k ih =>
    rw [List.range_succ, List.foldl_append, List.foldl_cons, List.foldl_nil]
    exact (ih.carry (by decide)).mono (by decide)

/-- In the middle of a carry both of its slots are full. -/
theorem getD_modify_succ_lt (small : ∀ j, slots.getD j 0 < 2 ^ 33) (i j : Nat) :
    (slots.modify (i + 1) (· + slots.getD i 0 / 0x10000)).getD j 0 < 2 ^ 53 := by
  by_cases next : j = i + 1
  · have first := small i
    have second := small (i + 1)
    have moved : (slots.modify (i + 1) (· + slots.getD i 0 / 0x10000)).getD (i + 1) 0 ≤
        slots.getD (i + 1) 0 + slots.getD i 0 / 0x10000 := getD_modify_le _
    rw [next]
    omega
  · rw [getD_modify_of_ne (Ne.symm next)]
    exact (small j).trans (by decide)

end Slots

open Slots (Loose)

/-! Rows -/

theorem depositAll_append (slots : Slots) (first second : List (Nat × Nat)) :
    depositAll slots (first ++ second) = depositAll (depositAll slots first) second :=
  List.foldl_append

/-- The deposits start from small slots and pass through small slots only. -/
inductive StaysLight : Slots → List (Nat × Nat) → Prop where
  | nil {slots : Slots} : (∀ i, slots.getD i 0 < 2 ^ 19) → StaysLight slots []
  | cons {slots : Slots} {i amount : Nat} {amounts : List (Nat × Nat)} :
      (∀ i, slots.getD i 0 < 2 ^ 19) → StaysLight (slots.deposit i amount) amounts →
      StaysLight slots ((i, amount) :: amounts)

theorem StaysLight.append {slots : Slots} {first second : List (Nat × Nat)}
    (light : StaysLight slots first) (light' : StaysLight (depositAll slots first) second) :
    StaysLight slots (first ++ second) := by
  induction light with
  | nil => exact light'
  | cons small _ ih => exact .cons small (ih light')

theorem StaysLight.lt {slots : Slots} {made rest : List (Nat × Nat)}
    (light : StaysLight slots (made ++ rest)) : ∀ i, (depositAll slots made).getD i 0 < 2 ^ 19 := by
  induction made generalizing slots with
  | nil => cases light <;> assumption
  | cons deposit made ih =>
    cases light with
    | cons _ light => exact ih light

section Rows

variable {slots : Slots} {a : UInt32} {as bs : List UInt32} {i j k : Nat}

theorem limb_mul_le {m n : Nat} (h : m < 2 ^ 16) (h' : n < 2 ^ 16) :
    m * n ≤ (2 ^ 16 - 1) * (2 ^ 16 - 1) :=
  Nat.mul_le_mul (by omega) (by omega)

theorem limb_lt (w : UInt32) : lowLimb w < 2 ^ 16 ∧ highLimb w < 2 ^ 16 := by
  have := w.toNat_lt
  unfold lowLimb highLimb
  omega

/-- The four products of two words move the loose slot by one word. -/
theorem staysLight_wordDeposits (a b : UInt32)
    (loose : Loose (2 ^ 16) (2 ^ 18) (2 * i + 2 * j + 1) slots) :
    StaysLight slots (wordDeposits a b i j) ∧
      Loose (2 ^ 16) (2 ^ 18) (2 * i + 2 * j + 3) (depositAll slots (wordDeposits a b i j)) := by
  obtain ⟨low, high⟩ := limb_lt a
  obtain ⟨low', high'⟩ := limb_lt b
  have first := loose.deposit_before (limb_mul_le low low')
  have second := first.deposit (by decide) ((limb_mul_le high low').trans_lt (by decide))
  have third := second.deposit_before (limb_mul_le low high')
  have fourth := third.deposit (by decide) ((limb_mul_le high high').trans_lt (by decide))
  constructor
  · apply StaysLight.cons (loose.lt (by omega) (by omega))
    apply StaysLight.cons (first.lt (by omega) (by omega))
    apply StaysLight.cons (second.lt (by omega) (by omega))
    apply StaysLight.cons (third.lt (by omega) (by omega))
    exact StaysLight.nil (fourth.lt (by omega) (by omega))
  · simp only [wordDeposits, depositAll, List.foldl_cons, List.foldl_nil]
    exact fourth.mono (by omega)

/-- A row moves the loose slot past its end. -/
theorem staysLight_row (a : UInt32) (bs : List UInt32)
    (loose : Loose (2 ^ 16) (2 ^ 18) (2 * i + 2 * k + 1) slots) :
    StaysLight slots ((bs.zipIdx k).flatMap fun (b, j) => wordDeposits a b i j) ∧
      Loose (2 ^ 16) (2 ^ 18) (2 * i + 2 * (k + bs.length) + 1)
        (depositAll slots ((bs.zipIdx k).flatMap fun (b, j) => wordDeposits a b i j)) := by
  induction bs generalizing slots k with
  | nil => exact ⟨.nil (loose.lt (by decide) (by decide)), loose⟩
  | cons b bs ih =>
    obtain ⟨light, loose⟩ := staysLight_wordDeposits a b loose
    obtain ⟨light', loose⟩ := ih (k := k + 1) loose
    rw [List.zipIdx_cons, List.flatMap_cons, depositAll_append, List.length_cons,
      Nat.add_comm bs.length 1, ← Nat.add_assoc k 1]
    exact ⟨light.append light', loose⟩

/-- What a row adds makes room for one more word. -/
theorem add_row_le {total row : Nat} (a : UInt32) (before : total + row ≤ 2 ^ (32 * k) * row) :
    total + a.toNat * row * 2 ^ (32 * k) + row ≤ 2 ^ (32 * (k + 1)) * row := by
  have bound := Nat.mul_le_mul_right (row * 2 ^ (32 * k)) a.toNat_lt
  have split : 2 ^ (32 * (k + 1)) * row = 2 ^ 32 * (row * 2 ^ (32 * k)) := by
    rw [Nat.mul_succ, Nat.pow_add]
    ring
  rw [Nat.succ_mul] at bound
  rw [split, Nat.mul_assoc]
  rw [Nat.mul_comm] at before
  exact (by omega : _ ≤ _).trans bound

/-- Each row starts with limbs only. Past its end the slots hold nothing, because of what they
hold together. -/
theorem staysLight_rows
    (inside : ∀ deposit ∈ (as.zipIdx k).flatMap fun (a, i) =>
      bs.zipIdx.flatMap fun (b, j) => wordDeposits a b i j, deposit.1 + 1 < slots.size)
    (limbs : ∀ i, slots.getD i 0 < 2 ^ 16)
    (total : slots.toNat + wordsToNat bs ≤ 2 ^ (32 * k) * wordsToNat bs) :
    StaysLight slots ((as.zipIdx k).flatMap fun (a, i) =>
      bs.zipIdx.flatMap fun (b, j) => wordDeposits a b i j) := by
  induction as generalizing slots k with
  | nil => exact .nil fun i => (limbs i).trans (by decide)
  | cons a as ih =>
    rw [List.zipIdx_cons, List.flatMap_cons] at inside ⊢
    rw [List.forall_mem_append] at inside
    obtain ⟨light, loose⟩ := staysLight_row (k := 0) a bs
      ((Slots.loose_of_forall limbs (2 * k + 2 * 0 + 1)).mono (by decide))
    obtain ⟨size, value⟩ := toNat_depositAll inside.1
    rw [weight_row, Nat.mul_zero, Nat.pow_zero, Nat.mul_one] at value
    have total' := add_row_le a total
    rw [← value] at total'
    -- The row is over, so nothing is deposited in the loose slot any more.
    have bound : (depositAll slots (bs.zipIdx.flatMap fun (b, j) => wordDeposits a b k j)).toNat <
        2 ^ (16 * (2 * k + 2 * (0 + bs.length) + 1) + 16) := by
      have row := wordsToNat_lt bs
      rw [Nat.one_shiftLeft] at row
      calc _ ≤ 2 ^ (32 * (k + 1)) * wordsToNat bs := (Nat.le_add_right _ _).trans total'
        _ < 2 ^ (32 * (k + 1)) * 2 ^ (32 * bs.length) :=
          Nat.mul_lt_mul_of_pos_left row (Nat.two_pow_pos _)
        _ = _ := by
          rw [← Nat.pow_add]
          congr 1
          omega
    have limbs' : Loose (2 ^ 16) (2 ^ 16) (2 * k + 2 * (0 + bs.length) + 1) _ :=
      ⟨loose.others, Slots.getD_lt_of_toNat_lt bound⟩
    exact light.append (ih (by rw [size]; exact inside.2)
      (limbs'.lt (Nat.le_refl _) (Nat.le_refl _)) total')

end Rows

/-! All slots -/

section Product

variable {as bs : List UInt32} {made rest : List (Nat × Nat)} {i amount : Nat}

theorem getD_depositAll_lt (split : deposits as bs = made ++ rest) :
    ∀ i, (depositAll (emptySlots as bs) made).getD i 0 < 2 ^ 19 := by
  have light : StaysLight (emptySlots as bs) (deposits as bs) := by
    apply staysLight_rows (deposits_inside_emptySlots as bs)
    · intro i
      rw [getD_emptySlots]
      decide
    · rw [toNat_emptySlots, Nat.mul_zero, Nat.pow_zero, Nat.one_mul, Nat.zero_add]
  rw [split] at light
  exact light.lt

theorem deposits_lt {deposit : Nat × Nat} (member : deposit ∈ deposits as bs) :
    deposit.2 < 2 ^ 32 := by
  simp only [deposits, List.mem_flatMap] at member
  obtain ⟨⟨a, i⟩, -, ⟨b, j⟩, -, product⟩ := member
  obtain ⟨low, high⟩ := limb_lt a
  obtain ⟨low', high'⟩ := limb_lt b
  simp only [wordDeposits, List.mem_cons, List.not_mem_nil, or_false] at product
  rcases product with rfl | rfl | rfl | rfl
  · exact (limb_mul_le low low').trans_lt (by decide)
  · exact (limb_mul_le high low').trans_lt (by decide)
  · exact (limb_mul_le low high').trans_lt (by decide)
  · exact (limb_mul_le high high').trans_lt (by decide)

theorem toNat_depositAll_made (split : deposits as bs = made ++ rest) :
    (depositAll (emptySlots as bs) made).size = 2 * (as.length + bs.length) + 1 ∧
      (depositAll (emptySlots as bs) made).toNat = weight made := by
  have inside : ∀ deposit ∈ made, deposit.1 + 1 < (emptySlots as bs).size := by
    intro deposit member
    apply deposits_inside_emptySlots as bs
    rw [split]
    exact List.mem_append_left _ member
  obtain ⟨size, value⟩ := toNat_depositAll inside
  rw [toNat_emptySlots, Nat.zero_add] at value
  rw [size_emptySlots] at size
  exact ⟨size, value⟩

/-- The slots between two statements of a product, with the limb products added up to there:
after some deposits, after the addition of another one, and after some carries of the sweep. -/
inductive Point (as bs : List UInt32) : List (Nat × Nat) → Slots → Prop where
  | deposited {made rest : List (Nat × Nat)} : deposits as bs = made ++ rest →
      Point as bs made (depositAll (emptySlots as bs) made)
  | added {made rest : List (Nat × Nat)} {i amount : Nat} :
      deposits as bs = made ++ (i, amount) :: rest →
      Point as bs (made ++ [(i, amount)])
        ((depositAll (emptySlots as bs) made).modify i (· + amount))
  | swept {k : Nat} : k ≤ 2 * (as.length + bs.length) →
      Point as bs (deposits as bs)
        ((List.range k).foldl Slots.carry (depositAll (emptySlots as bs) (deposits as bs)))

/-- The slots where a carry starts, and the slot that is carried out of. -/
inductive CarryStarts (as bs : List UInt32) : Slots → Nat → Prop where
  | added {made rest : List (Nat × Nat)} {i amount : Nat} :
      deposits as bs = made ++ (i, amount) :: rest →
      CarryStarts as bs ((depositAll (emptySlots as bs) made).modify i (· + amount)) i
  | swept {k : Nat} : k < 2 * (as.length + bs.length) →
      CarryStarts as bs
        ((List.range k).foldl Slots.carry (depositAll (emptySlots as bs) (deposits as bs))) k

variable {slots : Slots}

theorem Point.spec (point : Point as bs made slots) :
    slots.size = 2 * (as.length + bs.length) + 1 ∧ slots.toNat = weight made ∧
      ∀ i, slots.getD i 0 < 2 ^ 33 := by
  cases point with
  | deposited split =>
    obtain ⟨size, value⟩ := toNat_depositAll_made split
    exact ⟨size, value, fun i => (getD_depositAll_lt split i).trans (by decide)⟩
  | @added made rest i amount split =>
    have member : (i, amount) ∈ deposits as bs := by simp [split]
    obtain ⟨size, value⟩ := toNat_depositAll_made split
    have inside := deposits_inside member
    have product := deposits_lt member
    have loose := (Slots.loose_of_forall (getD_depositAll_lt split) i).add amount
    have change := Slots.toNat_modify (f := (· + amount))
      (show i < (depositAll (emptySlots as bs) made).size by omega)
    refine ⟨by rw [Array.size_modify, size], ?_, loose.lt (by decide) (by omega)⟩
    rw [weight_append, ← value]
    rw [Nat.add_mul] at change
    simp only [weight, List.map_cons, List.map_nil, List.sum_cons, List.sum_nil]
    omega
  | @swept k small =>
    have all : deposits as bs = deposits as bs ++ [] := (List.append_nil _).symm
    obtain ⟨size, value⟩ := toNat_depositAll_made all
    obtain ⟨size', value', -⟩ := Slots.foldl_carry
      (show k < (depositAll (emptySlots as bs) (deposits as bs)).size by omega)
    exact ⟨size'.trans size, value'.trans value,
      (Slots.loose_foldl_carry (getD_depositAll_lt all) k).lt (by decide) (by decide)⟩

theorem CarryStarts.spec (starts : CarryStarts as bs slots i) :
    i + 1 < slots.size ∧ ∀ j, slots.getD j 0 < 2 ^ 33 := by
  cases starts with
  | @added made rest i amount split =>
    have member : (i, amount) ∈ deposits as bs := by simp [split]
    have inside := deposits_inside member
    obtain ⟨size, -, small⟩ := (Point.added split).spec
    exact ⟨by omega, small⟩
  | swept inside =>
    obtain ⟨size, -, small⟩ := (Point.swept inside.le).spec
    exact ⟨by omega, small⟩

theorem point_sweep (as bs : List UInt32) :
    Point as bs (deposits as bs) (depositAll (emptySlots as bs) (deposits as bs)).sweep := by
  obtain ⟨size, -⟩ := toNat_depositAll_made (List.append_nil (deposits as bs)).symm
  rw [Slots.sweep, size, Nat.add_sub_cancel]
  exact .swept (Nat.le_refl _)

theorem getD_sweep_last (as bs : List UInt32) :
    (depositAll (emptySlots as bs) (deposits as bs)).sweep.getD (2 * (as.length + bs.length)) 0 =
      0 := by
  obtain ⟨-, value, -⟩ := (point_sweep as bs).spec
  rw [weight_deposits] at value
  have bound := wordsToNat_mul_lt as bs
  rw [← value] at bound
  exact Nat.lt_one_iff.mp (Slots.getD_lt_of_toNat_lt (k := 0) bound)

theorem getD_sweep_lt (as bs : List UInt32) (i : Nat) :
    (depositAll (emptySlots as bs) (deposits as bs)).sweep.getD i 0 < 2 ^ 16 := by
  obtain ⟨size, -, -⟩ := (point_sweep as bs).spec
  obtain ⟨filled, -⟩ := toNat_depositAll_made (List.append_nil (deposits as bs)).symm
  rcases Nat.lt_trichotomy i (2 * (as.length + bs.length)) with inside | rfl | outside
  · have limbs := (Slots.foldl_carry (show 2 * (as.length + bs.length) <
      (depositAll (emptySlots as bs) (deposits as bs)).size by omega)).2.2 i inside
    rwa [Slots.sweep, filled, Nat.add_sub_cancel]
  · rw [getD_sweep_last]
    decide
  · rw [Array.getD_eq_getD_getElem?, Array.getElem?_eq_none (by omega)]
    decide

theorem mul_eq_mulLimbs {a b : Integer} (positive : 0 < a.toInt) (positive' : 0 < b.toInt)
    (large : (a.isSmallFactor && b.isSmallFactor) = false) : a * b = mulLimbs a b := by
  have nonzero {c : Integer} (positive : 0 < c.toInt) : c.isZero = false := by
    rw [← Bool.not_eq_true]
    intro zero
    exact positive.ne' (toInt_of_isZero zero)
  show Integer.mul a b = _
  simp [Integer.mul, nonzero positive, nonzero positive', negative_of_pos positive,
    negative_of_pos positive', mulPositive, large]

end Product

/-- While two positive integers are multiplied by limbs, every slot stays below `2 ^ 53`, every
slot that is named is there, and the slots hold the limb products added so far. At the end
the slots hold limbs, and the last one nothing. -/
theorem product_slots_invariant {a b : Integer} (positive : 0 < a.toInt) (positive' : 0 < b.toInt)
    (large : (a.isSmallFactor && b.isSmallFactor) = false) :
    (∀ made slots, Point a.words b.words made slots →
      slots.size = 2 * (a.words.length + b.words.length) + 1 ∧ (∀ i, slots.getD i 0 < 2 ^ 53) ∧
      ∑ i ∈ Finset.range slots.size, slots.getD i 0 * 2 ^ (16 * i) =
        (made.map fun (i, amount) => amount * 2 ^ (16 * i)).sum) ∧
    (∀ i amount, (i, amount) ∈ deposits a.words b.words →
      i < 2 * (a.words.length + b.words.length) + 1) ∧
    (∀ slots i, CarryStarts a.words b.words slots i → i + 1 < slots.size ∧
      ∀ j, (slots.modify (i + 1) (· + slots.getD i 0 / 0x10000)).getD j 0 < 2 ^ 53) ∧
    ∃ slots, slots = (depositAll (emptySlots a.words b.words) (deposits a.words b.words)).sweep ∧
      Point a.words b.words (deposits a.words b.words) slots ∧
      a * b = make (slots.words (a.words.length + b.words.length)) false ∧
      (∀ i, slots.getD i 0 < 2 ^ 16) ∧
      slots.getD (2 * (a.words.length + b.words.length)) 0 = 0 := by
  refine ⟨fun made slots point => ?_, fun i amount member => ?_, fun slots i starts => ?_, ?_⟩
  · obtain ⟨size, value, small⟩ := point.spec
    exact ⟨size, fun i => (small i).trans (by decide), slots.toNat_eq_sum.symm.trans value⟩
  · have inside := deposits_inside member
    omega
  · obtain ⟨inside, small⟩ := starts.spec
    exact ⟨inside, Slots.getD_modify_succ_lt small i⟩
  · exact ⟨_, rfl, point_sweep _ _, mul_eq_mulLimbs positive positive' large, getD_sweep_lt _ _,
      getD_sweep_last _ _⟩

/-- All ones, whose limb products are the largest. -/
theorem product_slots_invariant_all_ones :
    0 < (⟨[0xFFFFFFFF], false⟩ : Integer).toInt ∧
      (isSmallFactor ⟨[0xFFFFFFFF], false⟩ && isSmallFactor ⟨[0xFFFFFFFF], false⟩) = false ∧
      (∀ made slots, Point [0xFFFFFFFF] [0xFFFFFFFF] made slots →
        ∀ i, slots.getD i 0 < 2 ^ 53) ∧
      ∃ slots, Point [0xFFFFFFFF] [0xFFFFFFFF] (deposits [0xFFFFFFFF] [0xFFFFFFFF]) slots ∧
        (⟨[0xFFFFFFFF], false⟩ * ⟨[0xFFFFFFFF], false⟩ : Integer) = make (slots.words 2) false ∧
        (∀ i, slots.getD i 0 < 2 ^ 16) ∧ slots.getD 4 0 = 0 := by
  have positive : 0 < (⟨[0xFFFFFFFF], false⟩ : Integer).toInt := by decide
  obtain ⟨points, -, -, slots, -, point, product, limbs, last⟩ :=
    product_slots_invariant positive positive (by decide)
  exact ⟨positive, by decide, fun made slots point => (points made slots point).2.1, slots, point,
    product, limbs, last⟩

end CallByNeed.Integer
