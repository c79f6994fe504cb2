import CallByNeed.Proofs.LongQuotient

set_option autoImplicit false

/-!
Division of signed integers of 64 bits.

The quotient of magnitudes takes the sign of the pair. The least number has no magnitude: its
half is divided and the quotient doubled, and what that leaves is divided again. A quotient that
leaves the range, which is that of the least number by minus one, wraps; remainders never do.
-/

namespace CallByNeed

/-- A doubled dividend: the quotient is doubled, and what is left is divided again. -/
theorem Integer.tdiv_two_mul (a : Int) {b : Int} (nonzero : b ≠ 0) :
    (2 * a).tdiv b = 2 * a.tdiv b + (2 * a.tmod b).tdiv b := by
  have natural : ∀ n : Int, 0 ≤ n →
      (2 * n).tdiv b = 2 * n.tdiv b + (2 * n.tmod b).tdiv b := by
    intro n low
    have rest := Int.tmod_nonneg b low
    have split : 2 * n = 2 * n.tmod b + b * (2 * n.tdiv b) := by
      rw [Int.tmod_def]
      ring
    rw [Int.tdiv_eq_ediv_of_nonneg (a := 2 * n) (by omega), split,
      Int.add_mul_ediv_left _ _ nonzero, Int.tdiv_eq_ediv_of_nonneg (a := 2 * n.tmod b) (by omega),
      Int.add_comm]
  rcases Int.le_total 0 a with low | high
  · exact natural a low
  · have opposite := natural (-a) (by omega)
    simp only [Int.mul_neg, Int.neg_tdiv, Int.neg_tmod] at opposite
    omega

namespace Long

open Integer (IsDivMod isQuotRem_tdiv tdiv_of_sign_iff tdiv_of_not_sign_iff tdiv_two_mul)

variable {x y q : Long} {b : Int}

/-- The number without its sign. The least keeps its own. -/
def magnitude (x : Long) : Long := if x.isNegative then -x else x

theorem toInt_magnitude (other : x ≠ least) : x.magnitude.toInt = |x.toInt| := by
  unfold magnitude
  split
  · next negative =>
    rw [isNegative_iff] at negative
    rw [toInt_neg other, abs_of_neg negative]
  · next positive =>
    rw [isNegative_iff, Int.not_lt] at positive
    rw [abs_of_nonneg positive]

theorem sign_iff_isNegative_eq (x y : Long) :
    (x.toInt < 0 ↔ y.toInt < 0) ↔ x.isNegative = y.isNegative := by
  rw [← isNegative_iff, ← isNegative_iff, Bool.coe_iff_coe]

theorem quotOrdinary_of_ne (some : x.isZero = false) (other : y ≠ least) :
    quotOrdinary x y = if x.isNegative = y.isNegative then quotPositive x.magnitude y.magnitude
      else -quotPositive x.magnitude y.magnitude := by
  rw [quotOrdinary, some, Bool.false_or, beq_eq_false_iff_ne.mpr other, if_neg Bool.false_ne_true,
    magnitude, magnitude]
  cases x.isNegative <;> cases y.isNegative <;> simp

/-- The division by `y` of this dividend ends with this quotient: rounds of magnitudes for an
ordinary pair, and for the least number two more divisions at most. -/
inductive Divides (y : Long) : Long → Long → Prop where
  | zero {x : Long} : x.isZero = true → Divides y x zero
  | unit : y = one ∨ y = negOne → Divides y least least
  | self : y = least → Divides y least one
  | near {half : Long} : y ≠ one → y ≠ negOne → y ≠ least →
      Divides y (least.shiftRight 1) half → (half.shiftLeft 1).isZero = true →
      Divides y least (if y.isNegative then one else negOne)
  | halved {half rest : Long} : y ≠ one → y ≠ negOne → y ≠ least →
      Divides y (least.shiftRight 1) half → (half.shiftLeft 1).isZero = false →
      Divides y (least - y * half.shiftLeft 1) rest → Divides y least (half.shiftLeft 1 + rest)
  | beyond {x : Long} : x.isZero = false → x ≠ least → y = least → Divides y x .zero
  | signed {x q : Long} : x.isZero = false → x ≠ least → y ≠ least →
      Rounds y.magnitude .zero x.magnitude q →
      Divides y x (if x.isNegative = y.isNegative then q else -q)

/-! Halving the least number -/

theorem toInt_half_least : (least.shiftRight 1).toInt = -2 ^ 62 := by decide

theorem natAbs_tdiv_half (b : Int) : (Int.tdiv (-2 ^ 62) b).natAbs = 2 ^ 62 / b.natAbs :=
  Int.natAbs_tdiv _ _

theorem natAbs_tmod_half (b : Int) : (Int.tmod (-2 ^ 62) b).natAbs = 2 ^ 62 % b.natAbs :=
  Int.natAbs_tmod _ _

theorem shiftLeft_half (n : Int) : (ofInt n).shiftLeft 1 = ofInt (2 * n) := by
  rw [← ofInt_shiftLeft n (by decide), Int.mul_comm]
  rfl

theorem isZero_double_iff (b : Int) :
    (ofInt (2 * Int.tdiv (-2 ^ 62) b)).isZero = true ↔ Int.tdiv (-2 ^ 62) b = 0 := by
  have bound : (Int.tdiv (-2 ^ 62) b).natAbs ≤ 2 ^ 62 := by
    rw [natAbs_tdiv_half]
    exact Nat.div_le_self _ _
  have residue := toInt_ofInt_mod (2 * Int.tdiv (-2 ^ 62) b)
  have range := toInt_bounds (ofInt (2 * Int.tdiv (-2 ^ 62) b))
  rw [isZero_iff]
  omega

theorem tdiv_least_of_half (h : Int.tdiv (-2 ^ 62) b = 0) (nonzero : b ≠ 0)
    (bound : b.natAbs ≤ 2 ^ 63) : Int.tdiv (-2 ^ 63) b = if b < 0 then 1 else -1 := by
  have above : 2 ^ 62 < b.natAbs := by
    have none := natAbs_tdiv_half b
    rw [h, Int.natAbs_zero, eq_comm, Nat.div_eq_zero_iff] at none
    omega
  have once : |(-2 ^ 63 : Int)| / |b| = 1 := by
    rw [Int.abs_eq_natAbs, Int.abs_eq_natAbs]
    exact ((Int.ediv_emod_unique (r := 2 ^ 63 - b.natAbs) (q := 1) (by omega)).mpr
      ⟨by omega, by omega, by omega⟩).1
  split
  · next negative => rw [tdiv_of_sign_iff (by omega), once]
  · next positive => rw [tdiv_of_not_sign_iff (by omega), once]

/-- What the doubled quotient leaves of the least number. -/
theorem toInt_least_sub (y : Long) :
    (least - y * ofInt (2 * Int.tdiv (-2 ^ 62) y.toInt)).toInt =
      2 * Int.tmod (-2 ^ 62) y.toInt := by
  have bound : (Int.tmod (-2 ^ 62) y.toInt).natAbs ≤ 2 ^ 62 := by
    rw [natAbs_tmod_half]
    exact Nat.mod_le _ _
  have sign : Int.tmod (-2 ^ 62) y.toInt ≤ 0 := by
    rw [Int.neg_tmod]
    exact Int.neg_nonpos_of_nonneg (Int.tmod_nonneg _ (by decide))
  have rest : 2 * Int.tmod (-2 ^ 62) y.toInt =
      -2 ^ 63 - y.toInt * (2 * Int.tdiv (-2 ^ 62) y.toInt) := by
    rw [Int.tmod_def]
    ring
  rw [← toInt_ofInt (n := 2 * Int.tmod (-2 ^ 62) y.toInt) (by omega) (by omega), rest, ofInt_sub,
    ofInt_mul y.toInt, ofInt_toInt]
  rfl

/-! The quotient -/

theorem Divides.eq_ofInt (divides : Divides y x q) (nonzero : y.toInt ≠ 0) :
    q = ofInt (x.toInt.tdiv y.toInt) := by
  induction divides with
  | zero isZero =>
    rw [(isZero_iff _).mp isZero, Int.zero_tdiv]
    decide
  | unit isUnit => rcases isUnit with rfl | rfl <;> decide
  | self isLeast =>
    subst isLeast
    decide
  | near _ _ _ _ isZero ih =>
    rw [toInt_half_least] at ih
    rw [ih, shiftLeft_half, isZero_double_iff] at isZero
    -- The half does not hold the divisor, so the least number holds it once.
    have bounds := y.toInt_bounds
    rw [show least.toInt = -2 ^ 63 by decide, tdiv_least_of_half isZero nonzero (by omega)]
    simp only [← isNegative_iff]
    cases y.isNegative <;> decide
  | halved _ _ _ _ _ _ ih ih' =>
    rw [toInt_half_least] at ih
    rw [ih, shiftLeft_half] at ih' ⊢
    rw [ih', toInt_least_sub, ← ofInt_add, ← tdiv_two_mul _ nonzero]
    rfl
  | @beyond x _ other isLeast =>
    subst isLeast
    have bounds := x.toInt_bounds
    rw [Ne, eq_least_iff] at other
    have size : least.toInt.natAbs = 2 ^ 63 := by decide
    have none : (x.toInt.tdiv least.toInt).natAbs = 0 :=
      (Int.natAbs_tdiv _ _).trans (Nat.div_eq_of_lt (by omega))
    rw [Int.natAbs_eq_zero.mp none]
    decide
  | @signed x q _ other other' rounds =>
    have magnitude : q.toInt = |x.toInt| / |y.toInt| := by
      rw [← toInt_magnitude other, ← toInt_magnitude other']
      apply rounds.toInt_eq
      · rw [toInt_magnitude other]
        exact abs_nonneg _
      · rw [toInt_magnitude other']
        exact abs_pos.mpr nonzero
    have signs := sign_iff_isNegative_eq x y
    split
    · next same => rw [tdiv_of_sign_iff (signs.mpr same), ← magnitude, ofInt_toInt]
    · next differ =>
      rw [tdiv_of_not_sign_iff (mt signs.mp differ), ← magnitude, ofInt_neg, ofInt_toInt]

theorem divides_quotOrdinary (other : x ≠ least) (nonzero : y.toInt ≠ 0) :
    Divides y x (quotOrdinary x y) := by
  by_cases isZero : x.isZero = true
  · rw [quotOrdinary, isZero, Bool.true_or, if_pos rfl]
    exact .zero isZero
  rw [Bool.not_eq_true] at isZero
  by_cases isLeast : y = least
  · rw [quotOrdinary, beq_iff_eq.mpr isLeast, Bool.or_true, if_pos rfl]
    exact .beyond isZero other isLeast
  · rw [quotOrdinary_of_ne isZero isLeast]
    apply Divides.signed isZero other isLeast
    apply rounds_quotPositive
    · rw [toInt_magnitude other]
      exact abs_nonneg _
    · rw [toInt_magnitude isLeast]
      exact abs_pos.mpr nonzero

/-- What is left of the least number has a magnitude, so that the second division is an
ordinary one. -/
theorem least_sub_ne_least (nonzero : y.toInt ≠ 0)
    (some : Int.tdiv (-2 ^ 62) y.toInt ≠ 0) :
    least - y * ofInt (2 * Int.tdiv (-2 ^ 62) y.toInt) ≠ least := by
  rw [Ne, eq_least_iff, toInt_least_sub]
  have fits : y.toInt.natAbs ≤ 2 ^ 62 := by
    rw [← Int.natAbs_ne_zero, natAbs_tdiv_half, Ne, Nat.div_eq_zero_iff] at some
    omega
  have less : (Int.tmod (-2 ^ 62) y.toInt).natAbs < y.toInt.natAbs := by
    rw [natAbs_tmod_half]
    exact Nat.mod_lt _ (by omega)
  omega

theorem divides_quotLeast (nonzero : y.toInt ≠ 0) : Divides y least (quotLeast y) := by
  unfold quotLeast
  split
  · next isUnit =>
    rw [Bool.or_eq_true, beq_iff_eq, beq_iff_eq] at isUnit
    exact .unit isUnit
  · next notUnit =>
    rw [Bool.or_eq_true, beq_iff_eq, beq_iff_eq, not_or] at notUnit
    split
    · next isLeast => exact .self (beq_iff_eq.mp isLeast)
    · next other =>
      rw [beq_iff_eq] at other
      have first : Divides y (least.shiftRight 1) (quotOrdinary (least.shiftRight 1) y) :=
        divides_quotOrdinary (by decide) nonzero
      dsimp only
      split
      · next isZero => exact .near notUnit.1 notUnit.2 other first isZero
      · next some =>
        have value := first.eq_ofInt nonzero
        rw [toInt_half_least] at value
        refine .halved notUnit.1 notUnit.2 other first (Bool.not_eq_true _ ▸ some)
          (divides_quotOrdinary ?_ nonzero)
        rw [value, shiftLeft_half] at some ⊢
        rw [isZero_double_iff] at some
        exact least_sub_ne_least nonzero some

/-! Remainders and quotients rounded down -/

theorem divisions_eq_error (x : Long) (isZero : y.toInt = 0) :
    x.quot y = .error .divisionByZero ∧ x.rem y = .error .divisionByZero ∧
      x.div y = .error .divisionByZero ∧ x.mod y = .error .divisionByZero := by
  have fails : x.quot y = .error .divisionByZero := by
    rw [quot, if_pos ((isZero_iff y).mpr isZero)]
  have rest : x.rem y = .error .divisionByZero := by
    rw [rem, fails]
    rfl
  refine ⟨fails, rest, ?_, ?_⟩
  · rw [div, fails]
    rfl
  · rw [mod, rest]
    rfl

theorem exists_quot (x : Long) (nonzero : y.toInt ≠ 0) :
    ∃ q, x.quot y = .ok q ∧ Divides y x q := by
  have some : ¬ y.isZero = true := mt (isZero_iff y).mp nonzero
  rw [quot, if_neg some]
  split
  · next isLeast => exact ⟨_, rfl, isLeast ▸ divides_quotLeast nonzero⟩
  · next other => exact ⟨_, rfl, divides_quotOrdinary other nonzero⟩

theorem toInt_ofInt_of_abs_lt {n : Int} (small : |n| < |y.toInt|) : (ofInt n).toInt = n := by
  have bounds := y.toInt_bounds
  rw [Int.abs_eq_natAbs, Int.abs_eq_natAbs] at small
  exact toInt_ofInt (by omega) (by omega)

/-- A remainder does not wrap, also where the quotient does. -/
theorem toInt_sub_mul (nonzero : y.toInt ≠ 0) :
    (x - ofInt (x.toInt.tdiv y.toInt) * y).toInt = x.toInt.tmod y.toInt := by
  have rest : x - ofInt (x.toInt.tdiv y.toInt) * y = ofInt (x.toInt.tmod y.toInt) := by
    rw [Int.tmod_def, ofInt_sub, Int.mul_comm, ofInt_mul, ofInt_toInt, ofInt_toInt]
  rw [rest, toInt_ofInt_of_abs_lt (isQuotRem_tdiv nonzero).lt]

theorem toInt_ofInt_floor {q r : Int} (floor : IsDivMod x.toInt y.toInt q r) :
    (ofInt q).toInt = (x.toInt.fdiv y.toInt).bmod (2 ^ 64) ∧
      (ofInt r).toInt = x.toInt.fmod y.toInt := by
  obtain ⟨quotient, remainder⟩ := floor.eq_fdiv
  rw [toInt_ofInt_bmod, toInt_ofInt_of_abs_lt floor.lt, quotient, remainder]
  exact ⟨rfl, rfl⟩

theorem divisions_of_quot (found : x.quot y = .ok q) :
    x.rem y = .ok (x - q * y) ∧
      x.div y = .ok (if x.isNegative != y.isNegative && !(x - q * y).isZero then q - one else q) ∧
      x.mod y = .ok (if x.isNegative != y.isNegative && !(x - q * y).isZero then x - q * y + y
        else x - q * y) := by
  have rest : x.rem y = .ok (x - q * y) := by
    rw [rem, found]
    rfl
  rw [div, mod, found, rest]
  exact ⟨rfl, rfl, rfl⟩

theorem exists_divisions (x : Long) (nonzero : y.toInt ≠ 0) :
    ∃ q r d m, x.quot y = .ok q ∧ x.rem y = .ok r ∧ x.div y = .ok d ∧ x.mod y = .ok m ∧
      Divides y x q ∧
      q.toInt = (x.toInt.tdiv y.toInt).bmod (2 ^ 64) ∧ r.toInt = x.toInt.tmod y.toInt ∧
      d.toInt = (x.toInt.fdiv y.toInt).bmod (2 ^ 64) ∧ m.toInt = x.toInt.fmod y.toInt := by
  obtain ⟨q, found, divides⟩ := exists_quot x nonzero
  obtain ⟨rest, found', rest'⟩ := divisions_of_quot found
  have quotient := divides.eq_ofInt nonzero
  have wrapped : q.toInt = (x.toInt.tdiv y.toInt).bmod (2 ^ 64) := by
    rw [quotient, toInt_ofInt_bmod]
  have remainder : (x - q * y).toInt = x.toInt.tmod y.toInt := by
    rw [quotient]
    exact toInt_sub_mul nonzero
  refine ⟨q, _, _, _, found, rest, found', rest', divides, wrapped, remainder, ?_⟩
  have rounded := isQuotRem_tdiv (a := x.toInt) nonzero
  have down : (x.isNegative != y.isNegative && !(x - q * y).isZero) = true ↔
      ¬ (x.toInt < 0 ↔ y.toInt < 0) ∧ x.toInt.tmod y.toInt ≠ 0 := by
    rw [Bool.and_eq_true, bne_iff_ne, Bool.not_eq_true', ← Bool.not_eq_true, isZero_iff, remainder,
      sign_iff_isNegative_eq]
  by_cases lowered : (x.isNegative != y.isNegative && !(x - q * y).isZero) = true
  · obtain ⟨differ, some⟩ := down.mp lowered
    have floor := toInt_ofInt_floor (rounded.isDivMod_sub_one some differ)
    rw [ofInt_sub, ← quotient, ofInt_add, ← remainder, ofInt_toInt, ofInt_toInt] at floor
    rw [if_pos lowered, if_pos lowered]
    exact floor
  · have exact : x.toInt.tmod y.toInt = 0 ∨ (x.toInt < 0 ↔ y.toInt < 0) := by
      rwa [down, not_and_or, not_not, not_ne_iff, or_comm] at lowered
    have floor := toInt_ofInt_floor (rounded.isDivMod exact)
    rw [← quotient, ← remainder, ofInt_toInt] at floor
    rw [if_neg lowered, if_neg lowered]
    exact floor

/-- A division by zero fails in each of its four forms. Any other ends, after the divisions that
halving the least number takes and their rounds, with the quotient rounded toward zero or down
and wrapped to 64 bits; the remainders are those of the whole numbers. -/
theorem divisions_wrap (x y : Long) :
    (y.toInt = 0 →
      x.quot y = .error .divisionByZero ∧ x.rem y = .error .divisionByZero ∧
      x.div y = .error .divisionByZero ∧ x.mod y = .error .divisionByZero) ∧
    (y.toInt ≠ 0 →
      (∀ q, Divides y x q ↔ x.quot y = .ok q) ∧
      ∃ q r d m, x.quot y = .ok q ∧ x.rem y = .ok r ∧ x.div y = .ok d ∧ x.mod y = .ok m ∧
        q.toInt = (x.toInt.tdiv y.toInt).bmod (2 ^ 64) ∧ r.toInt = x.toInt.tmod y.toInt ∧
        d.toInt = (x.toInt.fdiv y.toInt).bmod (2 ^ 64) ∧ m.toInt = x.toInt.fmod y.toInt) := by
  constructor
  · exact divisions_eq_error x
  · intro nonzero
    obtain ⟨q, r, d, m, found, rest, found', rest', divides, values⟩ := exists_divisions x nonzero
    refine ⟨fun q' => ?_, q, r, d, m, found, rest, found', rest', values⟩
    rw [found, Except.ok.injEq]
    constructor
    · intro divides'
      rw [divides.eq_ofInt nonzero, divides'.eq_ofInt nonzero]
    · rintro rfl
      exact divides

/-- The least number by minus one, where the quotient wraps, and by three, where a second
division follows the first. -/
theorem divisions_wrap_least :
    (negOne.toInt ≠ 0 ∧ least.quot negOne = .ok least ∧ least.rem negOne = .ok zero) ∧
    (⟨3, 0⟩ : Long).toInt ≠ 0 ∧
      ∃ q r d m, least.quot ⟨3, 0⟩ = .ok q ∧ least.rem ⟨3, 0⟩ = .ok r ∧
        least.div ⟨3, 0⟩ = .ok d ∧ least.mod ⟨3, 0⟩ = .ok m ∧
        q.toInt = -3074457345618258602 ∧ r.toInt = -2 ∧ d.toInt = -3074457345618258603 ∧
        m.toInt = 1 := by
  have nonzero : negOne.toInt ≠ 0 := by decide
  have nonzero' : (⟨3, 0⟩ : Long).toInt ≠ 0 := by decide
  refine ⟨⟨nonzero, ?_⟩, nonzero', ?_⟩
  · obtain ⟨-, q, r, -, -, found, rest, -, -, quotient, remainder, -⟩ :=
      (divisions_wrap least negOne).2 nonzero
    rw [found, rest, ← ofInt_toInt q, ← ofInt_toInt r, quotient, remainder]
    decide
  · obtain ⟨-, q, r, d, m, found, rest, found', rest', quotient, remainder, quotient',
      remainder'⟩ := (divisions_wrap least ⟨3, 0⟩).2 nonzero'
    refine ⟨q, r, d, m, found, rest, found', rest', ?_⟩
    rw [quotient, remainder, quotient', remainder']
    decide

end Long

end CallByNeed
