import CallByNeed.Proofs.BitPattern
import CallByNeed.Proofs.Bridge

set_option autoImplicit false

/-!
Doubles to integers.

A double becomes its exact value rounded toward zero: an integer of any size, or one of
64 bits, which stops at the ends of the range. The words of the former come from a loop
that ends because a power of `2 ^ 32` becomes infinite.
-/

namespace CallByNeed

/-- The integer next to a rational number on the side of zero. -/
def truncate (q : ℚ) : ℤ := if 0 ≤ q then ⌊q⌋ else ⌈q⌉

@[simp] theorem truncate_neg (q : ℚ) : truncate (-q) = -truncate q := by
  rcases lt_trichotomy q 0 with negative | rfl | positive
  · rw [truncate, truncate, if_pos (by linarith), if_neg (by linarith), Int.floor_neg]
  · simp [truncate]
  · rw [truncate, truncate, if_neg (by linarith), if_pos (by linarith), Int.ceil_neg]

theorem abs_truncate (q : ℚ) : |truncate q| = ⌊|q|⌋ := by
  have natural {r : ℚ} (h : 0 ≤ r) : |truncate r| = ⌊r⌋ := by
    rw [truncate, if_pos h, abs_of_nonneg (Int.floor_nonneg.mpr h)]
  rcases abs_cases q with ⟨same, h⟩ | ⟨same, h⟩
  · rw [same, natural h]
  · rw [same, ← natural (by linarith), truncate_neg, abs_neg]

namespace Floating

variable {f : Format}

theorem toInt_eq_truncate {x : Floating f} {q : ℚ} (exact : x.value = some q) :
    x.toInt = truncate q := by
  cases x with
  | nan => cases exact
  | infinite => cases exact
  | finite negative n onGrid =>
    obtain rfl := Option.some.inj exact
    have natural : truncate ((n : ℚ) / 2 ^ f.scale) = (n >>> f.scale : Nat) := by
      rw [truncate, if_pos (by positivity), Nat.shiftRight_eq_div_pow]
      exact_mod_cast Rat.floor_natCast_div_natCast n (2 ^ f.scale)
    cases negative with
    | false => exact natural.symm
    | true =>
      have opposite : (signed true n : ℚ) / 2 ^ f.scale = -(n / 2 ^ f.scale) := by
        rw [signed_eq]
        simp
        ring
      rw [opposite, truncate_neg, natural]
      rfl

theorem value_eq_none_iff {x : Floating f} : x.value = none ↔ x.isFinite = false := by
  cases x <;> simp [value, isFinite]

@[simp] theorem isFinite_neg (x : Floating f) : (-x).isFinite = x.isFinite := by
  cases x <;> rfl

@[simp] theorem position_zero : (0 : Double).position = some 0 := by
  obtain ⟨_, zero⟩ := isNat_ofInt (n := 0) (by decide)
  rw [show (0 : Double) = ofInt (0 : Nat) from rfl, zero]
  simp [position]

theorem lt_zero_iff {x : Double} : x.lt 0 = true ↔ ∃ p < 0, x.position = some p := by
  rw [lt, position_zero]
  cases x.position <;> simp

theorem neg_lt_zero {x : Double} (negative : x.lt 0 = true) : (-x).lt 0 = false := by
  obtain ⟨p, below, position⟩ := lt_zero_iff.mp negative
  rw [← Bool.not_eq_true, lt_zero_iff, position_neg, position]
  rintro ⟨r, below', opposite⟩
  have : -p = r := Option.some.inj opposite
  omega

theorem le_eq_false_of_lt {x y : Floating f} (less : x.lt y = true) : y.le x = false := by
  unfold lt at less
  unfold le
  revert less
  cases x.position with
  | none => simp
  | some p => cases y.position <;> simp

theorem toInt_ofQuanta_zero (s : Bool) {den : Nat} (positive : 0 < den) :
    (ofQuanta s 0 den : Floating f).toInt = 0 := by
  rw [ofQuanta_eq positive (Nat.zero_mul den).symm f.onGrid_zero]
  cases s <;> simp [toInt]

end Floating

namespace Integer

open Floating

/-! The loop over the words -/

/-- Takes words off a number with one power of `2 ^ 32` after the other, until a power is
above the number. -/
inductive Peels (value : Double) : Double → List UInt32 → Prop where
  | stop {power : Double} : power.le value = false → Peels value power []
  | step {power : Double} {words : List UInt32} : power.le value = true →
      Peels value (power * wordPower) words →
      Peels value power (Word.ofDouble (value / power) :: words)

/-- A negative number is converted by its opposite. -/
inductive Converts : Double → Integer → Prop where
  | special {x : Double} : x.isFinite = false → Converts x zero
  | negative {x : Double} {n : Integer} : x.isFinite = true → x.lt 0 = true →
      Converts (-x) n → Converts x (-n)
  | natural {x : Double} {words : List UInt32} : x.isFinite = true → x.lt 0 = false →
      Peels x 1 words → Converts x (make words false)

theorem Peels.unique {value power : Double} {words words' : List UInt32}
    (peels : Peels value power words) (peels' : Peels value power words') : words = words' := by
  induction peels generalizing words' with
  | stop above =>
    cases peels' with
    | stop => rfl
    | step fits => cases above.symm.trans fits
  | step fits _ ih =>
    cases peels' with
    | stop above => cases above.symm.trans fits
    | step _ rest => rw [ih rest]

theorem infinite_le_eq_false {value : Double} (finite : value.isFinite = true) :
    (.infinite false : Double).le value = false := by
  cases value with
  | nan => cases finite
  | infinite => cases finite
  | finite s n onGrid =>
    cases s with
    | false => exact infinite_le_finite
    | true =>
      have bound := onGrid.1
      show decide (((1 <<< Format.double.limit : Nat) : Int) ≤ -n) = false
      exact decide_eq_false (by omega)

/-- The powers that `wordsOfDouble` goes through are enough: the last of them is infinite. -/
theorem peels_powersFrom {value : Double} (finite : value.isFinite = true) {k count : Nat}
    {power : Double} (h : IsWordPower k power) (ends : k + count = 33) :
    Peels value power (((powersFrom power count).takeWhile fun power => power.le value).map
      fun power => Word.ofDouble (value / power)) := by
  induction count generalizing k power with
  | zero =>
    rw [IsWordPower, if_neg (by omega)] at h
    exact .stop (h ▸ infinite_le_eq_false finite)
  | succ count ih =>
    rw [powersFrom, List.takeWhile_cons]
    split
    · next fits =>
      have small : k < 32 := by
        by_contra large
        rw [IsWordPower, if_neg large] at h
        rw [h, infinite_le_eq_false finite] at fits
        cases fits
      exact .step fits (ih (h.succ small) (by omega))
    · next above => exact .stop (Bool.eq_false_iff.mpr above)

theorem peels_wordsOfDouble {value : Double} (finite : value.isFinite = true) :
    Peels value 1 (wordsOfDouble value) :=
  peels_powersFrom finite isWordPower_zero rfl

theorem ofDouble_of_natural {x : Double} (finite : x.isFinite = true) (natural : x.lt 0 = false) :
    ofDouble x = make (wordsOfDouble x) false := by
  simp [ofDouble, finite, natural]

theorem ofDouble_of_negative {x : Double} (finite : x.isFinite = true) (negative : x.lt 0 = true) :
    ofDouble x = -ofDouble (-x) := by
  rw [ofDouble_of_natural ((isFinite_neg x).trans finite) (neg_lt_zero negative)]
  simp [ofDouble, finite, negative]

theorem converts_ofDouble (x : Double) : Converts x (ofDouble x) := by
  have natural {y : Double} (finite : y.isFinite = true) (h : y.lt 0 = false) :
      Converts y (ofDouble y) := by
    rw [ofDouble_of_natural finite h]
    exact .natural finite h (peels_wordsOfDouble finite)
  cases finite : x.isFinite with
  | false =>
    rw [ofDouble, if_pos (by simp [finite])]
    exact .special finite
  | true =>
    cases sign : x.lt 0 with
    | false => exact natural finite sign
    | true =>
      rw [ofDouble_of_negative finite sign]
      exact .negative finite sign (natural ((isFinite_neg x).trans finite) (neg_lt_zero sign))

theorem converts_iff {x : Double} {n : Integer} : Converts x n ↔ n = ofDouble x := by
  constructor
  · intro converts
    induction converts with
    | special infinite => simp [ofDouble, infinite]
    | negative finite sign _ ih => rw [ih, ofDouble_of_negative finite sign]
    | natural finite sign peels =>
      rw [ofDouble_of_natural finite sign, peels.unique (peels_wordsOfDouble finite)]
  · rintro rfl
    exact converts_ofDouble x

end Integer

namespace Long

open Floating

section Finite

variable {n : Nat} (onGrid : Format.double.OnGrid n)

theorem two_pow_le_units_iff {e : Nat} :
    2 ^ e ≤ n >>> Format.double.scale ↔ 2 ^ e <<< Format.double.scale ≤ n := by
  rw [Nat.shiftRight_eq_div_pow, Nat.shiftLeft_eq, Nat.le_div_iff_mul_le (Nat.two_pow_pos _)]

theorem negative_le_neg_limitDouble_iff :
    (.finite true n onGrid : Double).le (-limitDouble) = true ↔
      2 ^ 63 ≤ n >>> Format.double.scale := by
  obtain ⟨limitGrid, limit⟩ := isNat_limitDouble
  rw [two_pow_le_units_iff, limit]
  generalize 2 ^ 63 <<< Format.double.scale = bound at *
  refine decide_eq_true_iff.trans ?_
  simp only [Bool.not_false, signed_true]
  omega

/-- A negative number and one make at most one. -/
theorem limitDouble_le_negative_add_one :
    limitDouble.le (.finite true n onGrid + 1) = false := by
  obtain ⟨unitGrid, unit⟩ := isNat_one
  have small : 1 <<< Format.double.scale < 2 ^ 63 <<< Format.double.scale :=
    units_lt_units_iff.mpr (by decide)
  rw [unit]
  generalize 1 <<< Format.double.scale = one at *
  show limitDouble.le (if signed true n + signed false one = 0 then _ else ofQuanta _ _ 1) = false
  simp only [signed_true, signed_false]
  split
  · rw [← Bool.not_eq_true, Floating.zero, isNat_limitDouble.le_finite]
    simp only [Bool.and_false, signed_false]
    omega
  · by_cases negative : -(n : Int) + one < 0
    · rw [decide_eq_true negative]
      exact le_eq_false_of_lt (ofQuanta_true_lt isNat_limitDouble (by decide))
    · have rounded : Format.double.round (-(n : Int) + one).natAbs 1 ≤ one :=
        Format.round_le unitGrid.2 (by omega)
      rw [decide_eq_false negative, ← Bool.not_eq_true, isNat_limitDouble.le_ofQuanta]
      omega

theorem ofSmallDouble_negative_zero (onGrid : Format.double.OnGrid 0) :
    ofSmallDouble (.finite true 0 onGrid) = zero := by
  obtain ⟨_, power⟩ := isNat_wordPower
  have positive : 0 < 2 ^ 32 <<< Format.double.scale := units_pos (by decide)
  rw [ofSmallDouble, power, finite_mod_finite positive.ne', finite_div_finite positive.ne',
    Nat.zero_mod, Nat.zero_shiftLeft, Word.ofDouble_eq, Word.ofDouble_eq,
    toInt_ofQuanta_zero _ (by decide), toInt_ofQuanta_zero _ positive]
  rfl

/-- A negative number is converted by its opposite, unless it is below the range. -/
theorem ofDouble_negative : ofDouble (.finite true n onGrid) =
    if 2 ^ 63 ≤ n >>> Format.double.scale then least
    else ofInt (-(n >>> Format.double.scale : Nat)) := by
  have sign : (.finite true n onGrid : Double).lt 0 = true ↔ 0 < n := by
    rw [lt_zero_iff]
    simp [position]
  rw [ofDouble, if_neg (by simp [isFinite])]
  by_cases low : 2 ^ 63 ≤ n >>> Format.double.scale
  · rw [if_pos low, if_pos ((negative_le_neg_limitDouble_iff onGrid).mpr low)]
  rw [if_neg low, if_neg (mt (negative_le_neg_limitDouble_iff onGrid).mp low),
    limitDouble_le_negative_add_one, if_neg Bool.false_ne_true]
  by_cases positive : 0 < n
  · have opposite : -(.finite true n onGrid : Double) = .finite false n onGrid := rfl
    rw [if_pos (sign.mpr positive), opposite, if_neg (mt (limitDouble_le_add_one onGrid).mp low),
      ofSmallDouble_finite, ofInt_neg]
  · obtain rfl : n = 0 := by omega
    rw [if_neg (mt sign.mp positive), ofSmallDouble_negative_zero, Nat.zero_shiftRight]
    decide

end Finite

/-- Toward zero, and no further than the ends of the range. -/
theorem toInt_ofDouble (x : Double) :
    (ofDouble x).toInt = max (-2 ^ 63) (min x.toInt (2 ^ 63 - 1)) := by
  have greatest_eq : greatest.toInt = 2 ^ 63 - 1 := by decide
  have least_eq : least.toInt = -2 ^ 63 := by decide
  have none_eq : zero.toInt = max (-2 ^ 63) (min 0 (2 ^ 63 - 1)) := by decide
  cases x with
  | nan => exact none_eq
  | infinite => exact none_eq
  | finite s n onGrid =>
    cases s with
    | false =>
      rw [ofDouble_finite, toInt_finite]
      generalize n >>> Format.double.scale = whole
      split
      · omega
      · rw [toInt_ofInt (by omega) (by omega)]
        omega
    | true =>
      have integer : (.finite true n onGrid : Double).toInt = -(n >>> Format.double.scale : Nat) :=
        rfl
      rw [ofDouble_negative, integer]
      generalize n >>> Format.double.scale = whole
      split
      · omega
      · rw [toInt_ofInt (by omega) (by omega)]
        omega

end Long

/-- A pattern that stands for a rational number becomes that number rounded toward zero, at
the end of the loop over its words, and in 64 bits it stops at the ends of the range. So the
two agree where the number is below `2 ^ 63`. All other patterns become zero. -/
theorem conversions_truncate (bits : Nat) :
    let x : Double := .ofBits bits
    (∀ q, Format.double.rational bits = some q →
      (∀ n, Integer.Converts x n ↔ n = .ofDouble x) ∧
      (Integer.ofDouble x).toInt = truncate q ∧
      (Long.ofDouble x).toInt = max (-2 ^ 63) (min (truncate q) (2 ^ 63 - 1)) ∧
      (|q| < 2 ^ 63 → (Integer.ofDouble x).toLong = .ofDouble x)) ∧
    (Format.double.rational bits = none →
      Integer.ofDouble x = .zero ∧ Long.ofDouble x = .zero) := by
  intro x
  have value : x.value = Format.double.rational bits := Floating.value_ofBits bits
  rw [← value]
  constructor
  · intro q exact
    have integer : x.toInt = truncate q := Floating.toInt_eq_truncate exact
    have long := Long.toInt_ofDouble x
    rw [integer] at long
    refine ⟨fun n => Integer.converts_iff, (Integer.toInt_ofDouble x).trans integer, long, ?_⟩
    intro small
    have bound : |truncate q| < 2 ^ 63 := by
      rw [abs_truncate, Int.floor_lt]
      exact_mod_cast small
    rw [abs_lt] at bound
    apply Long.toInt_injective
    rw [Integer.toLong_eq, Integer.toInt_ofDouble, integer, long,
      Long.toInt_ofInt bound.1.le bound.2]
    omega
  · intro none
    have infinite : x.isFinite = false := Floating.value_eq_none_iff.mp none
    simp [Integer.ofDouble, Long.ofDouble, infinite]

theorem conversions_truncate_minus_five_halves :
    let x : Double := .ofBits 0xC004000000000000
    Format.double.rational 0xC004000000000000 = some (-5 / 2) ∧
      (Integer.ofDouble x).toInt = -2 ∧ (Integer.ofDouble x).toLong = .ofDouble x := by
  have exact : Format.double.rational 0xC004000000000000 = some (-5 / 2) := by
    have sign : Nat.testBit 0xC004000000000000 63 = true := by decide
    have field : 0xC004000000000000 >>> 52 % 2048 = 1024 := by decide
    norm_num [Format.rational, Format.bias, Format.double, sign, field]
  have whole : truncate (-5 / 2) = -2 := by norm_num [truncate, Int.ceil_eq_iff]
  obtain ⟨-, integer, -, agree⟩ := (conversions_truncate 0xC004000000000000).1 _ exact
  exact ⟨exact, integer.trans whole, agree (by norm_num [abs_div])⟩

end CallByNeed
