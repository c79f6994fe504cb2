import CallByNeed.Proofs.Division
import CallByNeed.Proofs.Wraparound

set_option autoImplicit false

/-!
Quotients of positive integers of 64 bits.

An estimate is multiplied back modulo `2 ^ 64`, and a product that is negative or too large
lowers it. It is no more than the quotient of powers of two next to the dividend and the
divisor, so that its product stays below `2 ^ 64`: a product that leaves the signed range is
negative, and one that is not negative is exact. On their way down estimates stay whole
numbers on the grid of the first.
-/

namespace CallByNeed.Long

open Floating
open Integer (Takes takes_one)

variable {x y dividend divisor : Long}

@[simp] theorem toInt_one : one.toInt = 1 := by decide

theorem ofInt_toInt_add (x y : Long) (n : Int) :
    ofInt ((x + y).toInt + n) = ofInt (x.toInt + (y.toInt + n)) := by
  rw [ofInt_add, ofInt_toInt, ← Int.add_assoc, ofInt_add, ofInt_add, ofInt_toInt, ofInt_toInt]

/-- A number below `2 ^ 64` whose residue is not negative is that residue. -/
theorem toInt_ofInt_of_nonneg {n : Int} (low : 0 ≤ n) (high : n < 2 ^ 64)
    (sign : 0 ≤ (ofInt n).toInt) : (ofInt n).toInt = n := by
  have residue := toInt_ofInt_mod n
  have bounds := (ofInt n).toInt_bounds
  omega

/-! Doubles of numbers that are not negative -/

theorem between_toDouble {low high : Nat} (nonneg : 0 ≤ x.toInt) (above : low ≤ x.toInt.toNat)
    (below : x.toInt.toNat ≤ high) (lowGrid : Format.double.OnGrid (low <<< Format.double.scale))
    (highGrid : Format.double.OnGrid (high <<< Format.double.scale)) :
    x.toDouble.Between low high := by
  obtain ⟨upper, lower, sum⟩ := isNat_words nonneg
  exact upper.add_between lower lowGrid highGrid (by omega) (by omega)

theorem toInt_ofDouble_of_isNat {v : Double} {k : Nat} (h : v.IsNat k) :
    (ofDouble v).toInt = min k (2 ^ 63 - 1 : Nat) := by
  obtain ⟨onGrid, rfl⟩ := h
  rw [ofDouble_finite, Nat.shiftLeft_shiftRight]
  split
  · next large =>
    rw [Nat.min_eq_right (by omega)]
    decide
  · next small =>
    rw [Nat.min_eq_left (by omega), toInt_ofInt (by omega) (by omega)]

/-! The estimate -/

/-- An estimate is a whole number of at least one, and its product with the divisor has no more
than 64 bits. -/
theorem exists_isNat_estimate (positive : 0 < divisor.toInt)
    (order : divisor.toInt ≤ dividend.toInt) :
    ∃ k, (estimate dividend divisor).IsNat k ∧ 1 ≤ k ∧ k * divisor.toInt.toNat < 2 ^ 64 := by
  have bounds := dividend.toInt_bounds
  generalize exponent : divisor.toInt.toNat.log2 = e
  have lower : 2 ^ e ≤ divisor.toInt.toNat := exponent ▸ Nat.log2_self_le (by omega)
  have upper : divisor.toInt.toNat < 2 ^ (e + 1) := exponent ▸ Nat.lt_log2_self
  have small : e < 63 := by
    rw [← Nat.pow_lt_pow_iff_right (a := 2) (by decide)]
    omega
  have split : 2 ^ (63 - e) * 2 ^ e = 2 ^ 63 := by
    rw [← Nat.pow_add, Nat.sub_add_cancel (by omega)]
  have onGrid {j : Nat} (h : j < 1024) := Format.onGrid_two_pow h
  have numerator : dividend.toDouble.Between 0 (2 ^ (63 - e) * 2 ^ e) := by
    rw [split]
    exact between_toDouble (by omega) (Nat.zero_le _) (by omega)
      (by simpa using Format.double.onGrid_zero) (onGrid (by decide))
  have denominator : divisor.toDouble.Between (2 ^ e) (2 ^ 63) :=
    between_toDouble (by omega) lower (by omega) (onGrid (by omega)) (onGrid (by decide))
  obtain ⟨k, below, whole⟩ :=
    (numerator.div denominator (Nat.two_pow_pos e) (onGrid (by omega))).isNat_floor
  refine ⟨_, whole.max isNat_one, Nat.le_max_right k 1, ?_⟩
  have least : Max.max k 1 ≤ 2 ^ (63 - e) := Nat.max_le.mpr ⟨below, Nat.one_le_two_pow⟩
  calc Max.max k 1 * divisor.toInt.toNat ≤ 2 ^ (63 - e) * divisor.toInt.toNat :=
        Nat.mul_le_mul_right _ least
    _ < 2 ^ (63 - e) * 2 ^ (e + 1) := Nat.mul_lt_mul_of_pos_left upper (Nat.two_pow_pos _)
    _ = 2 ^ 64 := by rw [← Nat.pow_add]; congr 1; omega

theorem isNat_correctionStep {approx : Double} {k : Nat} (h : approx.IsNat k) (least : 1 ≤ k)
    (small : k < 2 ^ 64) : (correctionStep approx).IsNat (2 ^ (k.log2 - 47)) := by
  have log : k.log2 < 64 := (Nat.log2_lt (by omega)).mpr small
  have bits : estimateBits approx = k.log2 + 1 := by
    rw [estimateBits, h.toInt, Int.toNat_natCast, Nat.min_eq_left (by omega), if_neg (by omega)]
  have exponent : correctionExponent (k.log2 + 1) = k.log2 - 47 := by
    unfold correctionExponent
    omega
  rw [correctionStep, bits, exponent]
  exact isNat_twoPow (by omega)

/-- An estimate that is a whole number `k` of steps of the grid with this spacing, and whose
product with the divisor has no more than 64 bits. -/
structure Descends (divisor : Long) (spacing : Nat) (approx : Double) (k : Nat) : Prop where
  isNat : approx.IsNat k
  one_le : 1 ≤ k
  dvd : 2 ^ spacing ∣ k
  lt : k < 2 ^ (spacing + 53)
  product_lt : k * divisor.toInt.toNat < 2 ^ 64

section Descends

variable {spacing k : Nat} {approx step : Double}

theorem Descends.sub_lt_one {t : Nat} (descends : Descends divisor spacing approx k)
    (power : step.IsNat (2 ^ t)) (below : k ≤ 2 ^ t) : (approx - step).lt 1 = true := by
  rcases Nat.lt_or_eq_of_le below with less | same
  · exact descends.isNat.sub_lt power less isNat_one (by decide)
  · have onGrid : Format.double.OnGrid ((k - 2 ^ t) <<< Format.double.scale) := by
      rw [same, Nat.sub_self, Nat.zero_shiftLeft]
      exact Format.double.onGrid_zero
    rw [(descends.isNat.sub power (Nat.le_of_eq same.symm) onGrid).lt_iff isNat_one]
    omega

theorem exists_descends_estimate (positive : 0 < divisor.toInt)
    (order : divisor.toInt ≤ dividend.toInt) :
    ∃ k, Descends divisor (k.log2 - 52) (estimate dividend divisor) k := by
  obtain ⟨k, whole, least, product⟩ := exists_isNat_estimate positive order
  refine ⟨k, whole, least, whole.dvd, ?_, product⟩
  exact Nat.lt_of_lt_of_le Nat.lt_log2_self (Nat.pow_le_pow_right (by decide) (by omega))

variable (positive : 0 < divisor.toInt)
include positive

theorem Descends.lt_bits (descends : Descends divisor spacing approx k) : k < 2 ^ 64 :=
  Nat.lt_of_le_of_lt (Nat.le_mul_of_pos_right k (by omega)) descends.product_lt

theorem Descends.spacing_lt (descends : Descends divisor spacing approx k) : spacing < 64 := by
  rw [← Nat.pow_lt_pow_iff_right (a := 2) (by decide)]
  exact Nat.lt_of_le_of_lt (Nat.le_of_dvd descends.one_le descends.dvd)
    (descends.lt_bits positive)

theorem Descends.sub {t : Nat} (descends : Descends divisor spacing approx k)
    (power : step.IsNat (2 ^ t)) (coarse : spacing ≤ t)
    (proper : (approx - step).lt 1 = false) :
    Descends divisor spacing (approx - step) (k - 2 ^ t) := by
  have above : 2 ^ t < k := by
    by_contra below
    rw [descends.sub_lt_one power (Nat.le_of_not_lt below)] at proper
    cases proper
  have small := descends.spacing_lt positive
  have dvd : 2 ^ spacing ∣ k - 2 ^ t := Nat.dvd_sub descends.dvd (Nat.pow_dvd_pow 2 coarse)
  have lt : k - 2 ^ t < 2 ^ (spacing + 53) := Nat.lt_of_le_of_lt (Nat.sub_le _ _) descends.lt
  refine ⟨descends.isNat.sub power (Nat.le_of_lt above) ?_, by omega, dvd, lt, ?_⟩
  · obtain ⟨j, split⟩ := dvd
    rw [split, Nat.pow_add, Nat.mul_lt_mul_left (Nat.two_pow_pos _)] at lt
    rw [split, Nat.mul_comm, ← Nat.shiftLeft_eq]
    exact Format.onGrid_units (Nat.le_of_lt lt) (Nat.le_refl 53) (by omega)
  · exact Nat.lt_of_le_of_lt (Nat.mul_le_mul_right _ (Nat.sub_le _ _)) descends.product_lt

end Descends

/-! Rounds -/

/-- The part's product is negative or above the dividend. -/
def overshoots (dividend divisor : Long) (approx : Double) : Bool :=
  (ofDouble approx * divisor).isNegative || compare (ofDouble approx * divisor) dividend == .gt

/-- The estimate is lowered as often as it takes, and ends as this part of the quotient with
its product. -/
inductive Lowers (dividend divisor : Long) (step : Double) : Double → Long × Long → Prop where
  | fits {approx : Double} : overshoots dividend divisor approx = false →
      Lowers dividend divisor step approx (ofDouble approx, ofDouble approx * divisor)
  | least {approx : Double} : overshoots dividend divisor approx = true →
      (approx - step).lt 1 = true → Lowers dividend divisor step approx (one, divisor)
  | lower {approx : Double} {result : Long × Long} : overshoots dividend divisor approx = true →
      (approx - step).lt 1 = false → Lowers dividend divisor step (approx - step) result →
      Lowers dividend divisor step approx result

/-- Parts are added to the quotient as often as it takes, until less than the divisor
remains. -/
inductive Rounds (divisor : Long) : Long → Long → Long → Prop where
  | done {quotient remainder : Long} : (compare remainder divisor == .lt) = true →
      Rounds divisor quotient remainder quotient
  | round {quotient remainder result : Long} {part : Long × Long} :
      (compare remainder divisor == .lt) = false →
      Lowers remainder divisor (correctionStep (estimate remainder divisor))
        (estimate remainder divisor) part →
      Rounds divisor (quotient + part.1) (remainder - part.2) result →
      Rounds divisor quotient remainder result

section Loops

variable (positive : 0 < divisor.toInt)
include positive

theorem lowers_lowerEstimate {spacing t k fuel : Nat} {approx step : Double}
    (power : step.IsNat (2 ^ t)) (coarse : spacing ≤ t)
    (descends : Descends divisor spacing approx k) (enough : k < fuel) :
    Lowers dividend divisor step approx (lowerEstimate dividend divisor step fuel approx) := by
  induction fuel generalizing approx k with
  | zero => omega
  | succ fuel ih =>
    unfold lowerEstimate
    dsimp only
    split
    · next beyond =>
      split
      · next out => exact .least beyond out
      · next proper =>
        rw [Bool.not_eq_true] at proper
        have lowered := descends.sub positive power coarse proper
        have shorter : k - 2 ^ t < k := Nat.sub_lt descends.one_le (Nat.two_pow_pos t)
        exact .lower beyond proper (ih lowered (by omega))
    · next fits => exact .fits (Bool.not_eq_true _ ▸ fits)

/-- A product below `2 ^ 64` that is not negative is exact. -/
theorem takes_of_not_overshoots {spacing k : Nat} {approx : Double}
    (descends : Descends divisor spacing approx k)
    (fits : overshoots dividend divisor approx = false) :
    Takes dividend.toInt divisor.toInt (ofDouble approx).toInt
      (ofDouble approx * divisor).toInt := by
  have part := toInt_ofDouble_of_isNat descends.isNat
  have least := descends.one_le
  have bound : (ofDouble approx).toInt * divisor.toInt < 2 ^ 64 := by
    have below := descends.product_lt
    zify at below
    rw [Int.toNat_of_nonneg (Int.le_of_lt positive)] at below
    refine Int.lt_of_le_of_lt (Int.mul_le_mul_of_nonneg_right ?_ (Int.le_of_lt positive)) below
    omega
  have natural : 0 ≤ (ofDouble approx).toInt * divisor.toInt :=
    Int.mul_nonneg (by omega) (Int.le_of_lt positive)
  rw [overshoots, Bool.or_eq_false_iff] at fits
  have exact : (ofDouble approx * divisor).toInt = (ofDouble approx).toInt * divisor.toInt := by
    have sign := nonneg_of_isNegative fits.1
    rw [mul_eq_ofInt] at sign ⊢
    exact toInt_ofInt_of_nonneg natural bound sign
  refine ⟨by omega, exact, ?_⟩
  have order := fits.2
  rw [compare_eq, beq_eq_false_iff_ne, Ne, Int.compare_eq_gt] at order
  omega

theorem Lowers.takes (order : divisor.toInt ≤ dividend.toInt) {spacing t k : Nat}
    {approx step : Double} {part : Long × Long} (power : step.IsNat (2 ^ t)) (coarse : spacing ≤ t)
    (lowers : Lowers dividend divisor step approx part)
    (descends : Descends divisor spacing approx k) :
    Takes dividend.toInt divisor.toInt part.1.toInt part.2.toInt := by
  induction lowers generalizing k with
  | fits fits => exact takes_of_not_overshoots positive descends fits
  | least =>
    rw [toInt_one]
    exact takes_one order
  | lower _ proper _ ih => exact ih (descends.sub positive power coarse proper)

/-- The step of a round is no finer than the grid of its estimate. -/
theorem Descends.isNat_correctionStep {k : Nat} {approx : Double}
    (descends : Descends divisor (k.log2 - 52) approx k) :
    ∃ t, k.log2 - 52 ≤ t ∧ (correctionStep approx).IsNat (2 ^ t) :=
  ⟨k.log2 - 47, by omega,
    Long.isNat_correctionStep descends.isNat descends.one_le (descends.lt_bits positive)⟩

theorem lowers_quotientRound (order : divisor.toInt ≤ dividend.toInt) :
    Lowers dividend divisor (correctionStep (estimate dividend divisor))
      (estimate dividend divisor) (quotientRound dividend divisor) := by
  obtain ⟨k, descends⟩ := exists_descends_estimate positive order
  obtain ⟨t, coarse, power⟩ := descends.isNat_correctionStep positive
  apply lowers_lowerEstimate positive power coarse descends
  rw [descends.isNat.toInt, Int.toNat_natCast]
  exact Nat.lt_succ_self k

theorem Lowers.takes_estimate (order : divisor.toInt ≤ dividend.toInt) {part : Long × Long}
    (lowers : Lowers dividend divisor (correctionStep (estimate dividend divisor))
      (estimate dividend divisor) part) :
    Takes dividend.toInt divisor.toInt part.1.toInt part.2.toInt := by
  obtain ⟨k, descends⟩ := exists_descends_estimate positive order
  obtain ⟨t, coarse, power⟩ := descends.isNat_correctionStep positive
  exact lowers.takes positive order power coarse descends

theorem toInt_sub_of_takes {part : Int} {product : Long}
    (takes : Takes dividend.toInt divisor.toInt part product.toInt) :
    (dividend - product).toInt = dividend.toInt - product.toInt := by
  have bounds := dividend.toInt_bounds
  have taken := takes.one_le_product positive
  have left := takes.product_le
  rw [sub_eq_ofInt, toInt_ofInt (by omega) (by omega)]

/-- A round takes at least one off the remainder, which so bounds their number. -/
theorem rounds_quotientRounds {fuel : Nat} {quotient remainder : Long}
    (low : 0 ≤ remainder.toInt) (enough : remainder.toInt ≤ fuel) :
    Rounds divisor quotient remainder (quotientRounds divisor fuel quotient remainder) := by
  induction fuel generalizing quotient remainder with
  | zero =>
    apply Rounds.done
    rw [compare_eq, beq_iff_eq, Int.compare_eq_lt]
    omega
  | succ fuel ih =>
    unfold quotientRounds
    split
    · next less => exact .done less
    · next more =>
      have order : divisor.toInt ≤ remainder.toInt := by
        rwa [compare_eq, beq_iff_eq, Int.compare_eq_lt, Int.not_lt] at more
      have lowers := lowers_quotientRound positive order
      have takes := lowers.takes_estimate positive order
      have taken := takes.one_le_product positive
      have left := takes.product_le
      generalize quotientRound remainder divisor = part at lowers takes taken left ⊢
      have rest := toInt_sub_of_takes positive takes
      exact .round (Bool.not_eq_true _ ▸ more) lowers (ih (by omega) (by omega))

/-- The rounds add the quotient of what remains. -/
theorem Rounds.eq_ofInt {quotient remainder result : Long}
    (rounds : Rounds divisor quotient remainder result) (low : 0 ≤ remainder.toInt) :
    result = ofInt (quotient.toInt + remainder.toInt / divisor.toInt) := by
  induction rounds with
  | done less =>
    rw [compare_eq, beq_iff_eq, Int.compare_eq_lt] at less
    rw [Int.ediv_eq_zero_of_lt low less, Int.add_zero, ofInt_toInt]
  | round more lowers _ ih =>
    rw [compare_eq, beq_eq_false_iff_ne, Ne, Int.compare_eq_lt, Int.not_lt] at more
    have takes := lowers.takes_estimate positive more
    have left := takes.product_le
    have rest := toInt_sub_of_takes positive takes
    rw [ih (by omega), rest, ofInt_toInt_add, takes.part_add positive]

end Loops

theorem rounds_quotPositive (low : 0 ≤ x.toInt) (positive : 0 < y.toInt) :
    Rounds y zero x (quotPositive x y) :=
  rounds_quotientRounds positive low (by omega)

theorem Rounds.toInt_eq {q : Long} (rounds : Rounds y zero x q) (low : 0 ≤ x.toInt)
    (positive : 0 < y.toInt) : q.toInt = x.toInt / y.toInt := by
  have bounds := x.toInt_bounds
  have above : x.toInt / y.toInt ≤ x.toInt := Int.ediv_le_self _ low
  have natural : 0 ≤ x.toInt / y.toInt := Int.ediv_nonneg low (Int.le_of_lt positive)
  rw [rounds.eq_ofInt positive low, show zero.toInt = 0 by decide, Int.zero_add,
    toInt_ofInt (by omega) (by omega)]

end CallByNeed.Long
