import CallByNeed.Proofs.Division
import CallByNeed.Proofs.Significand
import Mathlib.Algebra.Order.Floor.Semifield
import Mathlib.Data.Rat.Floor
import Mathlib.Tactic.GCongr

set_option autoImplicit false

/-!
The accuracy of estimated quotients.

Rounding is off by at most one part in `2 ^ 53`. An estimate rounds three times, and drops
low bits of the dividend and of the divisor, so that it exceeds the quotient by less than one
part in `2 ^ 48`. A correction takes more than that off the estimate, and never all of it:
each round corrects its estimate once at most, and never falls back to one.
-/

namespace CallByNeed

/-! Relative errors -/

theorem roundHalfEven_near {num den : Nat} (positive : 0 < den) :
    2 * (roundHalfEven num den * den) ≤ 2 * num + den ∧
      2 * num ≤ 2 * (roundHalfEven num den * den) + den := by
  have whole := Nat.div_add_mod' num den
  have rest := Nat.mod_lt num positive
  simp only [roundHalfEven]
  split
  · rw [Nat.add_mul]
    omega
  · omega

namespace Format

variable {f : Format} {num den : Nat}

/-- At a number with a full significand the spacing is small beside the number. -/
theorem spacing_le (positive : 0 < den) (normal : 2 ^ f.fraction * den ≤ num) :
    2 ^ f.fraction * (den * 2 ^ f.gap (num / den)) ≤ num := by
  by_cases fine : f.gap (num / den) = 0
  · simpa [fine] using normal
  · have full := f.two_pow_le_div_gap fine
    rw [Nat.le_div_iff_mul_le (Nat.two_pow_pos _), Nat.le_div_iff_mul_le positive] at full
    refine (Nat.le_of_eq ?_).trans full
    ring

theorem round_near (positive : 0 < den) (normal : 2 ^ f.fraction * den ≤ num) :
    |(f.round num den : ℚ) - num / den| ≤ num / den / 2 ^ (f.fraction + 1) := by
  have unit : 0 < den * 2 ^ f.gap (num / den) := Nat.mul_pos positive (Nat.two_pow_pos _)
  have narrow := spacing_le positive normal
  have near : 2 * (roundHalfEven num _ * _) ≤ 2 * num + _ ∧ _ := roundHalfEven_near unit
  have scaled : f.round num den * den =
      roundHalfEven num (den * 2 ^ f.gap (num / den)) * (den * 2 ^ f.gap (num / den)) := by
    simp only [round, Nat.shiftLeft_eq]
    ring
  rw [← scaled] at near
  generalize den * 2 ^ f.gap (num / den) = spacing at *
  have den_pos : (0 : ℚ) < den := by exact_mod_cast positive
  have narrow : (2 : ℚ) ^ f.fraction * spacing ≤ num := by exact_mod_cast narrow
  have above : 2 * ((f.round num den : ℚ) * den) ≤ 2 * num + spacing := by exact_mod_cast near.1
  have below : 2 * (num : ℚ) ≤ 2 * (f.round num den * den) + spacing := by exact_mod_cast near.2
  have difference : (f.round num den : ℚ) - num / den = (f.round num den * den - num) / den := by
    field_simp
  rw [difference, abs_div, abs_of_pos den_pos, div_right_comm]
  gcongr
  rw [le_div_iff₀ (by positivity), pow_succ]
  have error : |(f.round num den : ℚ) * den - num| ≤ spacing / 2 := by
    rw [abs_le]
    constructor <;> linarith
  calc |(f.round num den : ℚ) * den - num| * (2 ^ f.fraction * 2)
      ≤ spacing / 2 * (2 ^ f.fraction * 2) := by gcongr
    _ = 2 ^ f.fraction * spacing := by ring
    _ ≤ num := narrow

theorem OnGrid.shiftLeft {n j : Nat} (onGrid : f.OnGrid n) (small : n <<< j < 1 <<< f.limit) :
    f.OnGrid (n <<< j) := by
  obtain ⟨k, narrow, split⟩ := onGrid.exists_significand
  rw [← Nat.shiftLeft_eq] at split
  refine ⟨small, ?_⟩
  rw [split, ← Nat.shiftLeft_add]
  exact f.aligned_shiftLeft (by rwa [Nat.one_shiftLeft])

end Format

namespace Floating

variable {f : Format} {x y : Floating f} {p q : ℚ}

/-- The number is this one up to the error of one rounding. -/
def Near (q : ℚ) (x : Floating f) : Prop :=
  ∃ v, x.value = some v ∧ |v - q| ≤ q / 2 ^ (f.fraction + 1)

theorem near_ofQuanta {num den k : Nat} (positive : 0 < den) (normal : 2 ^ f.fraction * den ≤ num)
    (below : k < f.limit) (small : num ≤ 2 ^ k * den) :
    Near (num / den / 2 ^ f.scale) (ofQuanta false num den : Floating f) := by
  have finite : f.round num den < 1 <<< f.limit := by
    rw [Nat.one_shiftLeft]
    exact (Format.round_le (Format.holds_two_pow below.le).1 small).trans_lt
      (Nat.pow_lt_pow_right (by decide) below)
  refine ⟨f.round num den / 2 ^ f.scale, ?_, ?_⟩
  · rw [ofQuanta, dif_pos finite]
    rfl
  · have near := f.round_near positive normal
    rw [← sub_div, abs_div, abs_of_pos (by positivity : (0 : ℚ) < 2 ^ f.scale), div_right_comm]
    gcongr

/-- An integer is rounded once. -/
theorem near_nat {n k : Nat} (positive : 0 < n) (small : n ≤ 2 ^ k) (fine : f.fraction ≤ f.scale)
    (room : k + f.scale < f.limit) :
    Near n (ofQuanta false (n * 2 ^ f.scale) 1 : Floating f) := by
  have units : ((n * 2 ^ f.scale : Nat) : ℚ) / (1 : Nat) / 2 ^ f.scale = n := by
    push_cast
    rw [div_one, mul_div_cancel_right₀ _ (by positivity)]
  have normal : 2 ^ f.fraction * 1 ≤ n * 2 ^ f.scale := by
    rw [Nat.mul_comm]
    exact Nat.mul_le_mul positive (Nat.pow_le_pow_right (by decide) fine)
  have bound : n * 2 ^ f.scale ≤ 2 ^ (k + f.scale) * 1 := by
    rw [Nat.mul_one, Nat.pow_add]
    exact Nat.mul_le_mul_right _ small
  rw [← units]
  exact near_ofQuanta Nat.one_pos normal room bound

theorem exists_finite_of_pos (exact : x.value = some q) (positive : 0 < q) :
    ∃ n onGrid, x = .finite false n onGrid ∧ (n : ℚ) = q * 2 ^ f.scale := by
  obtain ⟨s, n, onGrid, rfl, quanta⟩ := exists_finite exact
  cases s with
  | false => exact ⟨n, onGrid, rfl, quanta⟩
  | true =>
    have above : 0 < q * 2 ^ f.scale := by positivity
    have below : ((signed true n : Int) : ℚ) ≤ 0 := by simp
    linarith

theorem quanta_le {m n j : Nat} (first : (m : ℚ) = p * 2 ^ f.scale)
    (second : (n : ℚ) = q * 2 ^ f.scale) (order : p ≤ q * 2 ^ j) : m ≤ n * 2 ^ j := by
  have : (m : ℚ) ≤ n * 2 ^ j := by
    rw [first, second, mul_right_comm]
    gcongr
  exact_mod_cast this

/-- A quotient of numbers of similar size is rounded once. -/
theorem near_div {j : Nat} (first : x.value = some p) (second : y.value = some q) (positive : 0 < p)
    (positive' : 0 < q) (low : q ≤ p * 2 ^ j) (high : p ≤ q * 2 ^ j)
    (fine : f.fraction + j ≤ f.scale) (room : j + f.scale < f.limit) : Near (p / q) (x / y) := by
  obtain ⟨m, _, rfl, dividend⟩ := exists_finite_of_pos first positive
  obtain ⟨n, _, rfl, divisor⟩ := exists_finite_of_pos second positive'
  have nonzero : 0 < n := by
    have : (0 : ℚ) < n := divisor ▸ by positivity
    exact_mod_cast this
  have lower := quanta_le divisor dividend low
  have upper := quanta_le dividend divisor high
  have normal : 2 ^ f.fraction * n ≤ m <<< f.scale := by
    rw [Nat.shiftLeft_eq]
    calc 2 ^ f.fraction * n ≤ 2 ^ f.fraction * (m * 2 ^ j) := Nat.mul_le_mul_left _ lower
      _ = m * 2 ^ (f.fraction + j) := by ring
      _ ≤ m * 2 ^ f.scale := Nat.mul_le_mul_left _ (Nat.pow_le_pow_right (by decide) fine)
  have small : m <<< f.scale ≤ 2 ^ (j + f.scale) * n := by
    rw [Nat.shiftLeft_eq]
    calc m * 2 ^ f.scale ≤ n * 2 ^ j * 2 ^ f.scale := Nat.mul_le_mul_right _ upper
      _ = 2 ^ (j + f.scale) * n := by ring
  have quotient : ((m <<< f.scale : Nat) : ℚ) / n / 2 ^ f.scale = p / q := by
    rw [Nat.shiftLeft_eq]
    push_cast
    rw [dividend, divisor]
    field_simp
  rw [finite_div_finite nonzero.ne', ← quotient]
  exact near_ofQuanta nonzero normal room small

/-- The whole units of a number. -/
theorem isNat_floor (exact : x.value = some q) (positive : 0 < q) : x.floor.IsNat ⌊q⌋₊ := by
  obtain ⟨n, onGrid, rfl, quanta⟩ := exists_finite_of_pos exact positive
  have units : ⌊q⌋₊ = n >>> f.scale := by
    rw [Nat.shiftRight_eq_div_pow, ← Nat.floor_div_eq_div (K := ℚ), quanta]
    push_cast
    rw [mul_div_cancel_right₀ _ (by positivity)]
  rw [units]
  exact ⟨onGrid.floor f.scale, ofQuanta_eq (by decide) (Nat.mul_one _).symm _⟩

/-- A power of two is multiplied in without rounding. -/
theorem value_mul_twoPow {x : Double} (exact : x.value = some q) (positive : 0 < q) {j k : Nat}
    (small : q ≤ 2 ^ k) (room : k + j < 1024) : (x * twoPow j).value = some (q * 2 ^ j) := by
  obtain ⟨n, onGrid, rfl, quanta⟩ := exists_finite_of_pos exact positive
  have bound : n ≤ 2 ^ (k + Format.double.scale) := by
    have : (n : ℚ) ≤ 2 ^ (k + Format.double.scale) := by
      rw [quanta, pow_add]
      gcongr
    exact_mod_cast this
  have inside : n <<< j < 1 <<< Format.double.limit := by
    rw [Nat.shiftLeft_eq, Nat.one_shiftLeft]
    calc n * 2 ^ j ≤ 2 ^ (k + Format.double.scale) * 2 ^ j := Nat.mul_le_mul_right _ bound
      _ = 2 ^ (k + j + Format.double.scale) := by ring
      _ < 2 ^ Format.double.limit :=
        Nat.pow_lt_pow_right (by decide) (show k + j + 1074 < 2098 by omega)
  have product : (.finite false (n <<< j) (onGrid.shiftLeft inside) : Double).value =
      some (q * 2 ^ j) := by
    show some (((n <<< j : Nat) : ℤ) / 2 ^ Format.double.scale : ℚ) = _
    rw [Nat.shiftLeft_eq, Option.some_inj, div_eq_iff (by positivity), mul_right_comm, ← quanta]
    push_cast
    rfl
  have power : (twoPow j : Double).value = some (2 ^ j) := by
    rw [(isNat_twoPow (by omega)).value]
    push_cast
    rfl
  exact value_mul exact power product

end Floating

namespace Integer

open Floating

/-! Leading bits -/

section TopBits

variable {a : Integer}

theorem Canonical.near_toDouble (canonical : a.Canonical) (positive : 0 < a.toInt)
    (small : a.toInt < 2 ^ 64) : Near a.toInt a.toDouble := by
  have sign := negative_of_pos positive
  have value := toInt_of_not_negative sign
  have length : a.words.length ≤ 1 + 1 := by
    by_contra long
    have large := canonical.two_pow_le (show 2 < a.words.length by omega)
    omega
  have exact : Format.double.OnGrid ((wordsToNat a.words % 2 ^ (32 * 1)) <<< Format.double.scale) :=
    Format.onGrid_nat ((Nat.mod_lt _ (by decide)).le.trans (by decide))
  rw [toDouble, if_neg (by simp [sign]), sumOfWords_eq_ofQuanta (by decide) length exact, value,
    Int.cast_natCast]
  rw [value] at positive small
  exact near_nat (by omega) (by omega : wordsToNat a.words ≤ 2 ^ 64) (by decide) (by decide)

/-- The bits that an estimate does not look at. -/
def dropped (a : Integer) : Nat := a.bitLength - 64

/-- The bits that it looks at. -/
def leading (a : Integer) : Int := (a.shiftRight a.dropped).toInt

theorem leading_mul_le (a : Integer) : a.leading * 2 ^ a.dropped ≤ a.toInt := by
  rw [leading, toInt_shiftRight]
  exact Int.ediv_mul_le _ (by positivity)

theorem Canonical.leading_bounds (canonical : a.Canonical) (positive : 0 < a.toInt) :
    (1 : ℚ) ≤ a.leading ∧ (a.leading : ℚ) ≤ 2 ^ 64 := by
  obtain ⟨above, below⟩ := canonical.topBits positive
  constructor
  · exact_mod_cast above
  · exact_mod_cast below.le

theorem Canonical.near_leading (canonical : a.Canonical) (positive : 0 < a.toInt) :
    Near a.leading (a.shiftRight a.dropped).toDouble :=
  (canonical_shiftRight a _).near_toDouble (canonical.topBits positive).1
    (canonical.topBits positive).2

theorem Canonical.le_leading (canonical : a.Canonical) (positive : 0 < a.toInt)
    (long : 0 < a.dropped) : 2 ^ 63 ≤ a.leading := by
  obtain ⟨-, -, lower, -⟩ := canonical.bitLength_spec positive
  rw [dropped] at long
  rw [leading, toInt_shiftRight, Int.le_ediv_iff_mul_le (by positivity), ← pow_add, dropped]
  exact (pow_le_pow_right₀ (by decide) (by omega)).trans lower

/-- The bits that are dropped are few beside the others. -/
theorem Canonical.mul_le_leading (canonical : a.Canonical) (positive : 0 < a.toInt) :
    a.toInt * 2 ^ 63 ≤ a.leading * 2 ^ a.dropped * (2 ^ 63 + 1) := by
  rcases Nat.eq_zero_or_pos a.dropped with none | long
  · rw [leading, none, toInt_shiftRight, pow_zero, Int.ediv_one]
    omega
  · have full := canonical.le_leading positive long
    have unit : (0 : Int) < 2 ^ a.dropped := by positivity
    have cut : a.toInt < (a.leading + 1) * 2 ^ a.dropped := by
      rw [leading, toInt_shiftRight]
      exact Int.lt_ediv_add_one_mul_self _ unit
    have scaled := Int.mul_le_mul_of_nonneg_right full unit.le
    rw [Int.add_mul] at cut
    generalize a.leading * 2 ^ a.dropped = top at *
    omega

end TopBits

/-! The estimate -/

/-- A quotient of rounded numbers that is rounded again. -/
theorem abs_quotient_sub_le {r d p q v : ℚ} (positive : 0 < r) (positive' : 0 < d)
    (first : |p - r| ≤ r / 2 ^ 53) (second : |q - d| ≤ d / 2 ^ 53)
    (third : |v - p / q| ≤ p / q / 2 ^ 53) : |v - r / d| ≤ r / d / 2 ^ 50 := by
  obtain ⟨c, rfl⟩ : ∃ c, r = c * d := ⟨r / d, (div_mul_cancel₀ _ positive'.ne').symm⟩
  have ratio : 0 < c := pos_of_mul_pos_left positive positive'.le
  obtain ⟨first, first'⟩ := abs_le.mp first
  obtain ⟨second, second'⟩ := abs_le.mp second
  obtain ⟨third, third'⟩ := abs_le.mp third
  have divisor : 0 < q := by linarith
  have upper : p / q ≤ c * (1 + 3 / 2 ^ 53) := by
    rw [div_le_iff₀ divisor]
    calc p ≤ c * d * ((1 + 3 / 2 ^ 53) * (1 - 1 / 2 ^ 53)) := by linarith
      _ = c * (1 + 3 / 2 ^ 53) * (d * (1 - 1 / 2 ^ 53)) := by ring
      _ ≤ c * (1 + 3 / 2 ^ 53) * q := by gcongr; linarith
  have lower : c * (1 - 2 / 2 ^ 53) ≤ p / q := by
    rw [le_div_iff₀ divisor]
    calc c * (1 - 2 / 2 ^ 53) * q ≤ c * (1 - 2 / 2 ^ 53) * (d * (1 + 1 / 2 ^ 53)) := by
          gcongr
          linarith
      _ = c * d * ((1 - 2 / 2 ^ 53) * (1 + 1 / 2 ^ 53)) := by ring
      _ ≤ p := by linarith
  rw [mul_div_cancel_right₀ _ positive'.ne', abs_le]
  constructor <;> linarith

theorem canonical_estimate (dividend divisor : Integer) : (estimate dividend divisor).Canonical :=
  canonical_shiftLeft _ _

section Estimate

variable {dividend divisor : Integer} (canonical : dividend.Canonical)
  (canonical' : divisor.Canonical) (positive : 0 < divisor.toInt)
  (order : divisor.toInt ≤ dividend.toInt)
include canonical canonical' positive order

theorem dropped_mono : divisor.dropped ≤ dividend.dropped := by
  obtain ⟨-, -, -, upper, -⟩ := canonical.bitLength_spec (by omega)
  obtain ⟨-, -, lower, -⟩ := canonical'.bitLength_spec positive
  have : divisor.bitLength - 1 < dividend.bitLength := by
    rw [← Nat.pow_lt_pow_iff_right (a := 2) (by decide)]
    exact_mod_cast lower.trans_lt (order.trans_lt upper)
  unfold dropped
  omega

/-- The estimate is made of a quotient that comes near that of the leading bits. -/
theorem exists_estimate : ∃ v : ℚ,
    |v - dividend.leading / divisor.leading| ≤ dividend.leading / divisor.leading / 2 ^ 50 ∧
    (estimate dividend divisor).toInt =
      (Max.max ⌊v * 2 ^ min (dividend.dropped - divisor.dropped) 52⌋₊ 1 : Nat) *
        2 ^ (dividend.dropped - divisor.dropped - min (dividend.dropped - divisor.dropped) 52) := by
  have bounds := canonical.leading_bounds (positive.trans_le order)
  have bounds' := canonical'.leading_bounds positive
  obtain ⟨p, numerator, first⟩ := canonical.near_leading (positive.trans_le order)
  obtain ⟨q, denominator, second⟩ := canonical'.near_leading positive
  change |p - dividend.leading| ≤ dividend.leading / 2 ^ 53 at first
  change |q - divisor.leading| ≤ divisor.leading / 2 ^ 53 at second
  obtain ⟨first₁, first₂⟩ := abs_le.mp first
  obtain ⟨second₁, second₂⟩ := abs_le.mp second
  obtain ⟨v, quotient, third⟩ := near_div (j := 66) numerator denominator (by linarith)
    (by linarith) (by linarith) (by linarith) (by decide) (by decide)
  have near := abs_quotient_sub_le (by linarith) (by linarith) first second third
  have ratio : (0 : ℚ) < dividend.leading / divisor.leading := by
    apply div_pos <;> linarith
  have ratio' : (dividend.leading / divisor.leading : ℚ) ≤ 2 ^ 64 :=
    (div_le_self (by linarith) bounds'.1).trans bounds.2
  obtain ⟨near₁, near₂⟩ := abs_le.mp near
  have above : 0 < v := by linarith
  have scaled := value_mul_twoPow (j := min (dividend.dropped - divisor.dropped) 52) quotient above
    (show v ≤ 2 ^ 65 by linarith) (by omega)
  have whole := (isNat_floor scaled (by positivity)).max isNat_one
  refine ⟨v, near, ?_⟩
  show ((ofDouble _).shiftLeft _).toInt = _
  rw [toInt_shiftLeft, toInt_ofDouble]
  exact congrArg (· * _) whole.toInt

/-- With many bits dropped from the dividend, the quotient has many bits before the point. -/
theorem one_le_floor {v : ℚ} (long : 52 < dividend.dropped - divisor.dropped)
    (near : |v - dividend.leading / divisor.leading| ≤
      dividend.leading / divisor.leading / 2 ^ 50) : 1 ≤ ⌊v * 2 ^ 52⌋₊ := by
  have full : (2 : ℚ) ^ 63 ≤ dividend.leading := by
    exact_mod_cast canonical.le_leading (by omega) (by omega)
  obtain ⟨above, small⟩ := canonical'.leading_bounds positive
  have ratio : (1 / 2 : ℚ) ≤ dividend.leading / divisor.leading := by
    rw [le_div_iff₀ (by linarith)]
    linarith
  obtain ⟨near, -⟩ := abs_le.mp near
  apply Nat.le_floor
  push_cast
  linarith

/-- What comes near the quotient of the leading bits comes near the quotient. -/
theorem mul_le_of_near {v : ℚ} {n : Int} {scale : Nat}
    (scaled : dividend.dropped - divisor.dropped = scale)
    (near : |v - dividend.leading / divisor.leading| ≤ dividend.leading / divisor.leading / 2 ^ 50)
    (below : n ≤ v * 2 ^ scale) :
    n * divisor.toInt * 2 ^ 49 ≤ dividend.toInt * (2 ^ 49 + 1) := by
  have mono := dropped_mono canonical canonical' positive order
  have top : (0 : ℚ) < divisor.leading := by
    linarith [(canonical'.leading_bounds positive).1]
  have top' : (0 : ℚ) < dividend.leading := by
    linarith [(canonical.leading_bounds (positive.trans_le order)).1]
  have above : (0 : ℚ) < divisor.toInt := by exact_mod_cast positive
  have cut : (divisor.toInt : ℚ) * 2 ^ 63 ≤
      divisor.leading * 2 ^ divisor.dropped * (2 ^ 63 + 1) := by
    exact_mod_cast canonical'.mul_le_leading positive
  have cut' : (dividend.leading : ℚ) * 2 ^ dividend.dropped ≤ dividend.toInt := by
    exact_mod_cast dividend.leading_mul_le
  have power : (2 : ℚ) ^ scale * 2 ^ divisor.dropped = 2 ^ dividend.dropped := by
    rw [← pow_add, ← scaled, Nat.sub_add_cancel mono]
  obtain ⟨-, near⟩ := abs_le.mp near
  have product : (n : ℚ) * divisor.toInt ≤
      dividend.toInt * ((1 + 1 / 2 ^ 50) * (1 + 1 / 2 ^ 63)) :=
    calc (n : ℚ) * divisor.toInt ≤ v * 2 ^ scale * divisor.toInt := by gcongr
      _ ≤ dividend.leading / divisor.leading * (1 + 1 / 2 ^ 50) * 2 ^ scale *
          (divisor.leading * 2 ^ divisor.dropped * (1 + 1 / 2 ^ 63)) := by
        gcongr <;> linarith
      _ = dividend.leading * (2 ^ scale * 2 ^ divisor.dropped) *
          ((1 + 1 / 2 ^ 50) * (1 + 1 / 2 ^ 63)) := by field_simp
      _ ≤ dividend.toInt * ((1 + 1 / 2 ^ 50) * (1 + 1 / 2 ^ 63)) := by
        rw [power]
        gcongr
  have positive : (0 : ℚ) < dividend.toInt := by exact_mod_cast (by omega : 0 < dividend.toInt)
  have bound : (n : ℚ) * divisor.toInt * 2 ^ 49 ≤ dividend.toInt * (2 ^ 49 + 1) := by linarith
  exact_mod_cast bound

/-- The estimate exceeds the quotient by less than one part in `2 ^ 48`. -/
theorem estimate_mul_le : (estimate dividend divisor).toInt * divisor.toInt * 2 ^ 49 ≤
    dividend.toInt * (2 ^ 49 + 1) := by
  obtain ⟨v, near, value⟩ := exists_estimate canonical canonical' positive order
  have long := one_le_floor canonical canonical' positive order (v := v)
  generalize scaled : dividend.dropped - divisor.dropped = scale at *
  rcases Nat.eq_zero_or_pos ⌊v * 2 ^ min scale 52⌋₊ with none | some
  · have short : scale ≤ 52 := by
      by_contra wide
      rw [Nat.min_eq_right (by omega)] at none
      exact absurd (long (by omega) near) (by omega)
    rw [value, none, Nat.min_eq_left short, Nat.sub_self, Nat.max_eq_right (Nat.zero_le 1)]
    push_cast
    omega
  · rw [Nat.max_eq_left some] at value
    have whole := Nat.floor_le (Nat.pos_of_floor_pos some).le
    have lifted : ((estimate dividend divisor).toInt : ℚ) ≤ v * 2 ^ scale := by
      rw [value]
      push_cast
      calc (⌊v * 2 ^ min scale 52⌋₊ : ℚ) * 2 ^ (scale - min scale 52)
          ≤ v * 2 ^ min scale 52 * 2 ^ (scale - min scale 52) := by gcongr
        _ = v * 2 ^ scale := by rw [mul_assoc, ← pow_add, Nat.add_sub_cancel' (min_le_left _ _)]
    exact mul_le_of_near canonical canonical' positive order scaled near lifted

theorem estimate_le : (estimate dividend divisor).toInt ≤ dividend.toInt / divisor.toInt +
    2 ^ correctionExponent (estimate dividend divisor).bitLength := by
  have least := one_le_estimate canonical canonical' positive order
  have close := estimate_mul_le canonical canonical' positive order
  obtain ⟨-, -, -, bits, -⟩ := (canonical_estimate dividend divisor).bitLength_spec least
  have room : (2 : Int) ^ (estimate dividend divisor).bitLength ≤
      2 ^ correctionExponent (estimate dividend divisor).bitLength * 2 ^ 48 := by
    rw [← pow_add, correctionExponent]
    exact pow_le_pow_right₀ (by decide) (by omega)
  have rest := Int.lt_ediv_add_one_mul_self dividend.toInt positive
  by_contra beyond
  -- What is left after a correction would still exceed the quotient, and the correction is
  -- more than the estimate can be off by.
  generalize (estimate dividend divisor).toInt = approx at *
  generalize (2 : Int) ^ correctionExponent (estimate dividend divisor).bitLength = step at *
  have below : dividend.toInt < (approx - step) * divisor.toInt :=
    rest.trans_le (Int.mul_le_mul_of_nonneg_right (by omega) positive.le)
  have : approx * 2 ^ 49 * divisor.toInt < (approx - step) * (2 ^ 49 + 1) * divisor.toInt := by
    linarith
  have := lt_of_mul_lt_mul_right this positive.le
  omega

/-- An estimate that is too large keeps at least one after a correction. -/
theorem step_lt_estimate
    (large : dividend.toInt < (estimate dividend divisor).toInt * divisor.toInt) :
    2 ^ correctionExponent (estimate dividend divisor).bitLength <
      (estimate dividend divisor).toInt := by
  have least := one_le_estimate canonical canonical' positive order
  obtain ⟨-, -, bits, -⟩ := (canonical_estimate dividend divisor).bitLength_spec least
  have more : 1 < (estimate dividend divisor).toInt :=
    lt_of_mul_lt_mul_right ((Int.one_mul _).trans_lt (order.trans_lt large)) positive.le
  rw [correctionExponent]
  by_cases short : (estimate dividend divisor).bitLength ≤ 48
  · rwa [Nat.sub_eq_zero_of_le short, pow_zero]
  · exact (pow_lt_pow_right₀ (by decide) (by omega)).trans_le bits

end Estimate

/-! Corrections -/

/-- The estimate fits as it is, or after one correction that leaves something of it. -/
inductive Settles (dividend divisor step approx : Integer) : Integer × Integer → Prop where
  | fits : compare (approx * divisor) dividend ≠ .gt →
      Settles dividend divisor step approx (approx, approx * divisor)
  | once : compare (approx * divisor) dividend = .gt →
      ((approx - step).negative || (approx - step).isZero) = false →
      compare ((approx - step) * divisor) dividend ≠ .gt →
      Settles dividend divisor step approx (approx - step, (approx - step) * divisor)

/-- The rounds of a division, if the estimate of each settles. -/
inductive SettledRounds (divisor : Integer) : Integer → Integer → Integer → Prop where
  | done {quotient remainder : Integer} : compare remainder divisor = .lt →
      SettledRounds divisor quotient remainder quotient
  | round {quotient remainder result : Integer} {part : Integer × Integer} :
      compare remainder divisor ≠ .lt →
      Settles remainder divisor (correctionStep (estimate remainder divisor))
        (estimate remainder divisor) part →
      SettledRounds divisor (quotient + part.1) (remainder - part.2) result →
      SettledRounds divisor quotient remainder result

theorem compare_mul_eq_gt_iff {dividend divisor approx : Integer} :
    compare (approx * divisor) dividend = .gt ↔ dividend.toInt < approx.toInt * divisor.toInt := by
  rw [compare_eq, Int.compare_eq_gt, toInt_mul]

theorem Lowers.settles {dividend divisor step approx : Integer} {part : Integer × Integer}
    (lowers : Lowers dividend divisor step approx part)
    (proper : dividend.toInt < approx.toInt * divisor.toInt → step.toInt < approx.toInt)
    (enough : (approx.toInt - step.toInt) * divisor.toInt ≤ dividend.toInt) :
    Settles dividend divisor step approx part := by
  cases lowers with
  | fits fits => exact .fits fits
  | least large out =>
    have above := proper (compare_mul_eq_gt_iff.mp large)
    rw [Bool.or_eq_true, ← toInt_lt_zero_iff, (canonical_sub _ _).isZero_iff, toInt_sub] at out
    omega
  | lower large positive lowers =>
    cases lowers with
    | fits fits => exact .once large positive fits
    | least still | lower still =>
      rw [compare_mul_eq_gt_iff, toInt_sub] at still
      omega

theorem Lowers.settles_estimate {dividend divisor : Integer} {part : Integer × Integer}
    (canonical : dividend.Canonical) (canonical' : divisor.Canonical)
    (positive : 0 < divisor.toInt) (order : divisor.toInt ≤ dividend.toInt)
    (lowers : Lowers dividend divisor (correctionStep (estimate dividend divisor))
      (estimate dividend divisor) part) :
    Settles dividend divisor (correctionStep (estimate dividend divisor))
      (estimate dividend divisor) part := by
  have close := estimate_le canonical canonical' positive order
  apply lowers.settles
  · rw [toInt_correctionStep]
    exact step_lt_estimate canonical canonical' positive order
  · rw [toInt_correctionStep]
    exact (Int.mul_le_mul_of_nonneg_right (by omega) positive.le).trans
      (Int.ediv_mul_le _ positive.ne')

theorem Rounds.settled {divisor quotient remainder result : Integer}
    (rounds : Rounds divisor quotient remainder result) (canonical : divisor.Canonical)
    (positive : 0 < divisor.toInt) (canonical' : remainder.Canonical) :
    SettledRounds divisor quotient remainder result := by
  induction rounds with
  | done less => exact .done less
  | round more lowers _ ih =>
    have order := more
    rw [Ne, compare_eq, Int.compare_eq_lt, Int.not_lt] at order
    exact .round more (lowers.settles_estimate canonical' canonical positive order)
      (ih (canonical_sub _ _))

end Integer

end CallByNeed
