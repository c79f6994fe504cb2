import CallByNeed.Proofs.Product

set_option autoImplicit false

/-!
Quotients of positive integers.

Whatever the estimate of a round, as long as it is at least one, the round takes
a positive multiple of the divisor off the remainder and leaves it no less than
zero. So the rounds add up to the quotient. The estimate is at least one because
none of the doubles it goes through overflows.
-/

namespace CallByNeed

namespace Floating

section Bounds

variable {f : Format} {x y : Floating f} {low high : Nat}

/-- The number is finite, and between these numbers of units. -/
def Between (low high : Nat) (x : Floating f) : Prop :=
  ∃ n onGrid, x = .finite false n onGrid ∧ low <<< f.scale ≤ n ∧ n ≤ high <<< f.scale

theorem between_ofQuanta {num den : Nat} (positive : 0 < den)
    (lowGrid : f.OnGrid (low <<< f.scale)) (highGrid : f.OnGrid (high <<< f.scale))
    (above : low <<< f.scale * den ≤ num) (below : num ≤ high <<< f.scale * den) :
    (ofQuanta false num den : Floating f).Between low high := by
  have upper := Format.round_le highGrid.2 below
  have finite : f.round num den < 1 <<< f.limit := Nat.lt_of_le_of_lt upper highGrid.1
  refine ⟨f.round num den, ⟨finite, f.aligned_round num den⟩, ?_, ?_, upper⟩
  · rw [ofQuanta, dif_pos finite]
  · exact Format.le_round lowGrid.2 positive above

theorem IsNat.between {n : Nat} (h : x.IsNat n) (above : low ≤ n) (below : n ≤ high) :
    x.Between low high := by
  obtain ⟨onGrid, rfl⟩ := h
  exact ⟨_, onGrid, rfl, shiftLeft_mono above, shiftLeft_mono below⟩

theorem Between.mono {low' : Nat} (h : x.Between low high) (lower : low' ≤ low) :
    x.Between low' high := by
  obtain ⟨n, onGrid, rfl, above, below⟩ := h
  exact ⟨n, onGrid, rfl, Nat.le_trans (shiftLeft_mono lower) above, below⟩

theorem IsNat.add_between {m n : Nat} (hx : x.IsNat m) (hy : y.IsNat n)
    (lowGrid : f.OnGrid (low <<< f.scale)) (highGrid : f.OnGrid (high <<< f.scale))
    (above : low ≤ m + n) (below : m + n ≤ high) : (x + y).Between low high := by
  rw [hx.add_eq hy]
  apply between_ofQuanta (by decide) lowGrid highGrid
  · rw [Nat.mul_one]
    exact shiftLeft_mono above
  · rw [Nat.mul_one]
    exact shiftLeft_mono below

/-- A quotient is not above that of the bounds. -/
theorem Between.div {low' high' : Nat} (hx : x.Between 0 (high * low'))
    (hy : y.Between low' high') (positive : 0 < low') (highGrid : f.OnGrid (high <<< f.scale)) :
    (x / y).Between 0 high := by
  obtain ⟨m, _, rfl, -, below⟩ := hx
  obtain ⟨n, _, rfl, above, -⟩ := hy
  have units : 0 < low' <<< f.scale := units_pos positive
  rw [finite_div_finite (by omega)]
  apply between_ofQuanta (by omega) (by simpa using f.onGrid_zero) highGrid (by simp)
  calc m <<< f.scale ≤ (high * low') <<< f.scale <<< f.scale := shiftLeft_mono below
    _ = high <<< f.scale * low' <<< f.scale := by
      simp only [Nat.shiftLeft_eq]
      ac_rfl
    _ ≤ high <<< f.scale * n := Nat.mul_le_mul_left _ above

theorem Between.mul {k : Nat} (hx : x.Between 0 high) (hy : y.IsNat k)
    (highGrid : f.OnGrid ((high * k) <<< f.scale)) : (x * y).Between 0 (high * k) := by
  obtain ⟨m, _, rfl, -, below⟩ := hx
  obtain ⟨_, rfl⟩ := hy
  rw [finite_mul_finite]
  apply between_ofQuanta scale_pos (by simpa using f.onGrid_zero) highGrid (by simp)
  refine Nat.le_trans (Nat.mul_le_mul_right _ below) (Nat.le_of_eq ?_)
  simp only [Nat.shiftLeft_eq, Nat.one_mul]
  ac_rfl

theorem Between.isNat_floor (hx : x.Between 0 high) : ∃ k ≤ high, x.floor.IsNat k := by
  obtain ⟨m, onGrid, rfl, -, below⟩ := hx
  refine ⟨m >>> f.scale, ?_, onGrid.floor f.scale, ?_⟩
  · rw [Nat.shiftLeft_eq] at below
    rw [Nat.shiftRight_eq_div_pow]
    exact Nat.div_le_of_le_mul (by rwa [Nat.mul_comm])
  · exact ofQuanta_eq (by decide) (Nat.mul_one _).symm _

end Bounds

theorem isNat_twoPow {n : Nat} (small : n < 1024) : (twoPow n : Double).IsNat (2 ^ n) := by
  have onGrid := Format.onGrid_two_pow small
  have amount : min (n : Int).natAbs Format.double.limit = n := by
    show min n 2098 = n
    omega
  refine ⟨onGrid, ?_⟩
  rw [twoPow, if_pos (Int.natCast_nonneg n), amount]
  apply ofQuanta_eq (by decide)
  rw [Nat.mul_one, Nat.add_comm, Nat.shiftLeft_add, Nat.one_shiftLeft]

end Floating

namespace Integer

open Floating

variable {a : Integer}

/-! The top bits -/

theorem negative_of_pos (positive : 0 < a.toInt) : a.negative = false := by
  rw [← Bool.not_eq_true, ← toInt_lt_zero_iff]
  omega

theorem Canonical.bitLength_spec (canonical : a.Canonical) (positive : 0 < a.toInt) :
    ∃ top, a.words.getLast? = some top ∧ 2 ^ (a.bitLength - 1) ≤ a.toInt ∧
      a.toInt < 2 ^ a.bitLength ∧ 32 * a.words.length ≤ a.bitLength + 31 := by
  have sign := negative_of_pos positive
  rw [toInt_of_not_negative sign] at positive ⊢
  cases last : a.words.getLast? with
  | none =>
    rw [List.getLast?_eq_none_iff] at last
    rw [last] at positive
    cases positive
  | some top =>
    obtain ⟨low, words⟩ := List.getLast?_eq_some_iff.mp last
    have nonzero : top ≠ 0 := by
      rintro rfl
      exact canonical (by rw [last, fill, sign]; rfl)
    have nonzero' : top.toNat ≠ 0 := fun h => nonzero (UInt32.toNat_inj.mp h)
    have length : a.bitLength = 32 * low.length + (top.toNat.log2 + 1) := by
      rw [bitLength, last]
      simp [bitsOfWord, nonzero, words]
    have value : wordsToNat a.words = wordsToNat low + top.toNat * 2 ^ (32 * low.length) := by
      rw [words, wordsToNat_append, Nat.shiftLeft_eq]
      simp [wordsToNat]
    have rest := wordsToNat_lt low
    rw [Nat.one_shiftLeft] at rest
    refine ⟨top, rfl, ?_, ?_, ?_⟩
    · have lower : 2 ^ (a.bitLength - 1) ≤ top.toNat * 2 ^ (32 * low.length) := by
        rw [length, ← Nat.add_assoc, Nat.add_sub_cancel, Nat.add_comm, Nat.pow_add]
        exact Nat.mul_le_mul_right _ (Nat.log2_self_le nonzero')
      rw [value]
      exact_mod_cast Nat.le_trans lower (Nat.le_add_left _ _)
    · have upper : (top.toNat + 1) * 2 ^ (32 * low.length) ≤ 2 ^ a.bitLength := by
        rw [length, Nat.add_comm (32 * low.length), Nat.pow_add]
        exact Nat.mul_le_mul_right _ Nat.lt_log2_self
      rw [Nat.add_mul] at upper
      rw [value]
      exact_mod_cast
        (by omega : wordsToNat low + top.toNat * 2 ^ (32 * low.length) < 2 ^ a.bitLength)
    · rw [length, words]
      simp
      omega

/-- What an estimate looks at has at least one bit and at most 64. -/
theorem Canonical.topBits (canonical : a.Canonical) (positive : 0 < a.toInt) :
    0 < (a.shiftRight (a.bitLength - 64)).toInt ∧
      (a.shiftRight (a.bitLength - 64)).toInt < 2 ^ 64 := by
  obtain ⟨-, -, lower, upper, -⟩ := canonical.bitLength_spec positive
  rw [toInt_shiftRight]
  have unit : (0 : Int) < 2 ^ (a.bitLength - 64) := Int.pow_pos (by decide)
  constructor
  · apply Int.lt_of_lt_of_le Int.zero_lt_one
    rw [Int.le_ediv_iff_mul_le unit, Int.one_mul]
    exact Int.le_trans (pow_le_pow_right₀ (by decide) (by omega)) lower
  · apply Int.ediv_lt_of_lt_mul unit
    rw [← Int.pow_add]
    exact Int.lt_of_lt_of_le upper (pow_le_pow_right₀ (by decide) (by omega))

theorem between_sumOfWords {ws : List UInt32} (short : ws.length ≤ 2)
    (positive : 0 < wordsToNat ws) : (sumOfWords 0 1 ws).Between 1 (2 ^ 64) := by
  match ws, short with
  | [], _ => cases positive
  | [w], _ =>
    have bound := w.toNat_lt
    simp only [wordsToNat] at positive
    exact (isNat_sumOfWords w).between (by omega) (by omega)
  | [w, w'], _ =>
    have bound := w.toNat_lt
    have bound' := w'.toNat_lt
    have power : (1 * wordPower : Double).IsNat (2 ^ 32) := by
      simpa using isNat_one.mul isNat_wordPower (Format.onGrid_two_pow (e := 32) (by decide))
    have high : (ofInt w'.toNat * (1 * wordPower) : Double).IsNat (w'.toNat * 2 ^ 32) := by
      apply (isNat_ofInt (by omega)).mul power
      rw [← Nat.shiftLeft_eq]
      exact Format.onGrid_units (w := 32) (by omega) (by decide) (by decide)
    simp only [wordsToNat] at positive
    show ((sumOfWords 0 1 [w]) + ofInt w'.toNat * (1 * wordPower) : Double).Between 1 (2 ^ 64)
    apply (isNat_sumOfWords w).add_between high
    · exact Format.onGrid_two_pow (e := 0) (by decide)
    · exact Format.onGrid_two_pow (by decide)
    · omega
    · omega

/-- The double of a number of up to 64 bits may be rounded, but stays in range. -/
theorem Canonical.between_toDouble (canonical : a.Canonical) (positive : 0 < a.toInt)
    (small : a.toInt < 2 ^ 64) : a.toDouble.Between 1 (2 ^ 64) := by
  obtain ⟨-, -, lower, -, length⟩ := canonical.bitLength_spec positive
  have sign := negative_of_pos positive
  have bits : a.bitLength - 1 < 64 := by
    rw [← Nat.pow_lt_pow_iff_right (a := 2) (by decide)]
    exact_mod_cast Int.lt_of_le_of_lt lower small
  rw [toInt_of_not_negative sign] at positive
  rw [toDouble, sign]
  exact between_sumOfWords (by omega) (by omega)

/-! The estimate -/

theorem one_le_estimate {dividend divisor : Integer} (canonical : dividend.Canonical)
    (canonical' : divisor.Canonical) (positive : 0 < divisor.toInt)
    (order : divisor.toInt ≤ dividend.toInt) : 1 ≤ (estimate dividend divisor).toInt := by
  have top := canonical.topBits (by omega)
  have top' := canonical'.topBits positive
  have numerator := (canonical_shiftRight dividend _).between_toDouble top.1 top.2
  have denominator := (canonical_shiftRight divisor _).between_toDouble top'.1 top'.2
  unfold estimate
  dsimp only
  generalize lifted : min (dividend.bitLength - 64 - (divisor.bitLength - 64)) 52 = lift
  have onGrid {e : Nat} (h : e ≤ 116) : Format.double.OnGrid (2 ^ e <<< Format.double.scale) :=
    Format.onGrid_two_pow (by omega)
  have numerator' :
      (dividend.shiftRight (dividend.bitLength - 64)).toDouble.Between 0 (2 ^ 64 * 1) :=
    numerator.mono (Nat.zero_le 1)
  have quotient := numerator'.div denominator (by decide) (onGrid (by decide))
  have scaled := quotient.mul (isNat_twoPow (n := lift) (by omega))
  rw [← Nat.pow_add] at scaled
  obtain ⟨k, -, whole⟩ := (scaled (onGrid (by omega))).isNat_floor
  have least : 1 ≤ Max.max k 1 := Nat.le_max_right k 1
  rw [toInt_shiftLeft, toInt_ofDouble, (whole.max isNat_one).toInt]
  have unit : (1 : Int) ≤ 2 ^ (dividend.bitLength - 64 - (divisor.bitLength - 64) - lift) :=
    Int.pow_pos (by decide)
  exact Int.le_trans (by omega) (le_mul_of_one_le_right (by omega) unit)

/-! Rounds -/

/-- A part of the quotient, with its product, that can be taken off the dividend. -/
structure Takes (dividend divisor part product : Int) : Prop where
  one_le : 1 ≤ part
  product_eq : product = part * divisor
  product_le : product ≤ dividend

theorem takes_one {dividend divisor : Int} (order : divisor ≤ dividend) :
    Takes dividend divisor 1 divisor :=
  ⟨Int.le_refl 1, (Int.one_mul _).symm, order⟩

section Takes

variable {dividend divisor part product : Int} (takes : Takes dividend divisor part product)
  (positive : 0 < divisor)
include takes positive

theorem Takes.one_le_product : 1 ≤ product := by
  rw [takes.product_eq]
  exact Int.mul_pos takes.one_le positive

/-- What remains has the rest of the quotient. -/
theorem Takes.part_add : part + (dividend - product) / divisor = dividend / divisor := by
  rw [takes.product_eq, Int.sub_eq_add_neg, Int.neg_mul_eq_neg_mul,
    Int.add_mul_ediv_right _ _ (by omega)]
  omega

end Takes

section Rounds

variable {dividend divisor : Integer}

theorem takes_lowerEstimate {step approx : Integer} (order : divisor.toInt ≤ dividend.toInt)
    (fuel : Nat) (positive : 1 ≤ approx.toInt) :
    Takes dividend.toInt divisor.toInt (lowerEstimate dividend divisor step fuel approx).1.toInt
      (lowerEstimate dividend divisor step fuel approx).2.toInt := by
  have least : Takes dividend.toInt divisor.toInt one.toInt divisor.toInt := takes_one order
  induction fuel generalizing approx with
  | zero => exact least
  | succ fuel ih =>
    unfold lowerEstimate
    dsimp only
    split
    · split
      · exact least
      · next proper =>
        rw [Bool.or_eq_true, ← toInt_lt_zero_iff, (canonical_sub _ _).isZero_iff] at proper
        exact ih (by omega)
    · next fits =>
      rw [compare_eq, Int.compare_eq_gt] at fits
      exact ⟨positive, toInt_mul _ _, Int.not_lt.mp fits⟩

theorem takes_quotientRound (canonical : dividend.Canonical) (canonical' : divisor.Canonical)
    (positive : 0 < divisor.toInt) (order : divisor.toInt ≤ dividend.toInt) :
    Takes dividend.toInt divisor.toInt (quotientRound dividend divisor).1.toInt
      (quotientRound dividend divisor).2.toInt :=
  takes_lowerEstimate order _ (one_le_estimate canonical canonical' positive order)

/-- The rounds add the quotient of what remains. Each takes at least one off it, so that
it bounds their number. -/
theorem toInt_quotientRounds (canonical : divisor.Canonical) (positive : 0 < divisor.toInt)
    {fuel : Nat} {quotient remainder : Integer} (canonical' : remainder.Canonical)
    (low : 0 ≤ remainder.toInt) (enough : remainder.toInt ≤ fuel) :
    (quotientRounds divisor fuel quotient remainder).toInt =
      quotient.toInt + remainder.toInt / divisor.toInt := by
  induction fuel generalizing quotient remainder with
  | zero =>
    have none : remainder.toInt = 0 := by omega
    rw [quotientRounds, none, Int.zero_ediv, Int.add_zero]
  | succ fuel ih =>
    unfold quotientRounds
    split
    · next less =>
      rw [compare_eq, Int.compare_eq_lt] at less
      rw [Int.ediv_eq_zero_of_lt low less, Int.add_zero]
    · next notLess =>
      rw [compare_eq, Int.compare_eq_lt] at notLess
      have takes := takes_quotientRound canonical' canonical positive (Int.not_lt.mp notLess)
      have taken := takes.one_le_product positive
      have left := takes.product_le
      show (quotientRounds divisor fuel (quotient + (quotientRound remainder divisor).1)
        (remainder - (quotientRound remainder divisor).2)).toInt = _
      rw [ih (canonical_sub _ _) (by rw [toInt_sub]; omega) (by rw [toInt_sub]; omega), toInt_add,
        toInt_sub, Int.add_assoc, takes.part_add positive]

end Rounds

theorem toInt_quotPositive {a b : Integer} (canonical : a.Canonical) (canonical' : b.Canonical)
    (low : 0 ≤ a.toInt) (positive : 0 < b.toInt) :
    (quotPositive a b).toInt = a.toInt / b.toInt := by
  have sign : a.negative = false := by
    rw [← Bool.not_eq_true, ← toInt_lt_zero_iff]
    omega
  have value := toInt_of_not_negative sign
  rw [quotPositive, toInt_quotientRounds canonical' positive canonical low (by omega), toInt_zero,
    Int.zero_add]

end Integer

end CallByNeed
