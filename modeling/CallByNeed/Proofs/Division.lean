import CallByNeed.Proofs.Quotient

set_option autoImplicit false

/-!
Quotients and remainders of integers of any sign.

`Lowers` and `Rounds` are the two loops of a division without a bound on their
turns, so that a derivation is a run that ends. Every division by a positive
integer has one. The signs are put back after it, once for the quotient that is
rounded toward zero and once for the one that is rounded down.
-/

namespace CallByNeed.Integer

/-! The loops -/

/-- The estimate is lowered as often as it takes, and ends as this part of the quotient with
its product. -/
inductive Lowers (dividend divisor step : Integer) : Integer → Integer × Integer → Prop where
  | fits {approx : Integer} : compare (approx * divisor) dividend ≠ .gt →
      Lowers dividend divisor step approx (approx, approx * divisor)
  | least {approx : Integer} : compare (approx * divisor) dividend = .gt →
      ((approx - step).negative || (approx - step).isZero) = true →
      Lowers dividend divisor step approx (one, divisor)
  | lower {approx : Integer} {result : Integer × Integer} :
      compare (approx * divisor) dividend = .gt →
      ((approx - step).negative || (approx - step).isZero) = false →
      Lowers dividend divisor step (approx - step) result →
      Lowers dividend divisor step approx result

/-- Parts are added to the quotient as often as it takes, until less than the divisor
remains. -/
inductive Rounds (divisor : Integer) : Integer → Integer → Integer → Prop where
  | done {quotient remainder : Integer} : compare remainder divisor = .lt →
      Rounds divisor quotient remainder quotient
  | round {quotient remainder result : Integer} {part : Integer × Integer} :
      compare remainder divisor ≠ .lt →
      Lowers remainder divisor (correctionStep (estimate remainder divisor))
        (estimate remainder divisor) part →
      Rounds divisor (quotient + part.1) (remainder - part.2) result →
      Rounds divisor quotient remainder result

section Loops

variable {dividend divisor : Integer}

theorem toInt_correctionStep (approx : Integer) :
    (correctionStep approx).toInt = 2 ^ correctionExponent approx.bitLength := by
  rw [correctionStep, toInt_shiftLeft, toInt_one, Int.one_mul]

theorem one_le_correctionStep (approx : Integer) : 1 ≤ (correctionStep approx).toInt := by
  rw [toInt_correctionStep]
  exact Int.pow_pos (by decide)

/-- An estimate bounds the steps that lower it. -/
theorem lowers_lowerEstimate {step approx : Integer} {fuel : Nat} (proper : 1 ≤ step.toInt)
    (low : 0 ≤ approx.toInt) (enough : approx.toInt < fuel) :
    Lowers dividend divisor step approx (lowerEstimate dividend divisor step fuel approx) := by
  induction fuel generalizing approx with
  | zero => omega
  | succ fuel ih =>
    unfold lowerEstimate
    dsimp only
    split
    · next large =>
      split
      · next out => exact .least large out
      · next positive =>
        rw [Bool.not_eq_true] at positive
        refine .lower large positive (ih ?_ ?_)
        · rw [Bool.or_eq_false_iff, ← Bool.not_eq_true, ← toInt_lt_zero_iff] at positive
          omega
        · rw [toInt_sub]
          omega
    · next fits => exact .fits fits

theorem lowers_quotientRound (canonical : dividend.Canonical) (canonical' : divisor.Canonical)
    (positive : 0 < divisor.toInt) (order : divisor.toInt ≤ dividend.toInt) :
    Lowers dividend divisor (correctionStep (estimate dividend divisor))
      (estimate dividend divisor) (quotientRound dividend divisor) := by
  have least := one_le_estimate canonical canonical' positive order
  have value := toInt_of_not_negative (negative_of_pos (Int.lt_of_lt_of_le Int.one_pos least))
  apply lowers_lowerEstimate (one_le_correctionStep _) <;> omega

theorem rounds_quotientRounds (canonical : divisor.Canonical) (positive : 0 < divisor.toInt)
    {fuel : Nat} {quotient remainder : Integer} (canonical' : remainder.Canonical)
    (low : 0 ≤ remainder.toInt) (enough : remainder.toInt ≤ fuel) :
    Rounds divisor quotient remainder (quotientRounds divisor fuel quotient remainder) := by
  induction fuel generalizing quotient remainder with
  | zero =>
    apply Rounds.done
    rw [compare_eq, Int.compare_eq_lt]
    omega
  | succ fuel ih =>
    unfold quotientRounds
    split
    · next less => exact .done less
    · next more =>
      have order : divisor.toInt ≤ remainder.toInt := by
        rwa [compare_eq, Int.compare_eq_lt, Int.not_lt] at more
      have takes := takes_quotientRound canonical' canonical positive order
      have taken := takes.one_le_product positive
      have left := takes.product_le
      show Rounds divisor quotient remainder (quotientRounds divisor fuel
        (quotient + (quotientRound remainder divisor).1)
        (remainder - (quotientRound remainder divisor).2))
      refine .round more (lowers_quotientRound canonical' canonical positive order)
        (ih (canonical_sub _ _) ?_ ?_)
      · rw [toInt_sub]
        omega
      · rw [toInt_sub]
        omega

theorem rounds_quotPositive {a b : Integer} (canonical : a.Canonical) (canonical' : b.Canonical)
    (low : 0 ≤ a.toInt) (positive : 0 < b.toInt) : Rounds b zero a (quotPositive a b) := by
  have sign : a.negative = false := by
    rw [← Bool.not_eq_true, ← toInt_lt_zero_iff]
    omega
  have value := toInt_of_not_negative sign
  exact rounds_quotientRounds canonical' positive canonical low (by omega)

end Loops

/-! Signs -/

/-- `q` is the quotient of `a` by `b` rounded toward zero, and `r` is what remains. -/
structure IsQuotRem (a b q r : Int) : Prop where
  eq : a = q * b + r
  lt : |r| < |b|
  sign : r = 0 ∨ r.sign = a.sign

/-- `q` is the quotient of `a` by `b` rounded down, and `r` is what remains. -/
structure IsDivMod (a b q r : Int) : Prop where
  eq : a = q * b + r
  lt : |r| < |b|
  sign : r = 0 ∨ r.sign = b.sign

theorem isQuotRem_tdiv {a b : Int} (nonzero : b ≠ 0) : IsQuotRem a b (a.tdiv b) (a.tmod b) where
  eq := by rw [Int.tdiv_mul_add_tmod]
  lt := by
    rw [← Int.natCast_natAbs, ← Int.natCast_natAbs, Int.natAbs_tmod]
    exact_mod_cast Nat.mod_lt _ (Int.natAbs_pos.mpr nonzero)
  sign := by
    rw [Int.sign_tmod, ← Int.dvd_iff_tmod_eq_zero]
    split
    · next divides => exact .inl divides
    · exact .inr rfl

theorem sign_eq_ite {n : Int} (nonzero : n ≠ 0) : n.sign = if n < 0 then -1 else 1 := by
  split
  · next negative => exact Int.sign_eq_neg_one_of_neg negative
  · exact Int.sign_eq_one_of_pos (by omega)

section Remainders

variable {a b q r : Int}

theorem IsQuotRem.sign_iff (h : IsQuotRem a b q r) (some : r ≠ 0) : r < 0 ↔ a < 0 := by
  have same := h.sign.resolve_left some
  have nonzero : a ≠ 0 := by
    rintro rfl
    exact some (by simpa using same)
  rw [sign_eq_ite some, sign_eq_ite nonzero] at same
  grind

theorem IsQuotRem.ne_zero (h : IsQuotRem a b q r) : b ≠ 0 :=
  abs_pos.mp ((abs_nonneg r).trans_lt h.lt)

theorem IsQuotRem.isDivMod (h : IsQuotRem a b q r) (same : r = 0 ∨ (a < 0 ↔ b < 0)) :
    IsDivMod a b q r := by
  refine ⟨h.eq, h.lt, ?_⟩
  by_cases none : r = 0
  · exact .inl none
  · right
    have sign := h.sign_iff none
    rw [sign_eq_ite none, sign_eq_ite h.ne_zero]
    grind

/-- Where the signs differ and something remains, the quotient rounded down is one less. -/
theorem IsQuotRem.isDivMod_sub_one (h : IsQuotRem a b q r) (some : r ≠ 0)
    (differ : ¬ (a < 0 ↔ b < 0)) : IsDivMod a b (q - 1) (r + b) := by
  have sign := h.sign_iff some
  have lt := h.lt
  refine ⟨by rw [h.eq]; ring, by grind, .inr ?_⟩
  rw [sign_eq_ite (by grind), sign_eq_ite h.ne_zero]
  grind

theorem IsDivMod.eq_fdiv (h : IsDivMod a b q r) : q = a.fdiv b ∧ r = a.fmod b := by
  obtain ⟨eq, lt, sign⟩ := h
  have split : r + b * q = a := by rw [eq]; ring
  rcases lt_trichotomy b 0 with negative | rfl | positive
  · rw [Int.sign_eq_neg_one_of_neg negative, Int.sign_eq_neg_one_iff_neg] at sign
    have found := (Int.fdiv_fmod_unique' negative).mpr ⟨split, by grind, by omega⟩
    exact ⟨found.1.symm, found.2.symm⟩
  · exact absurd lt (by simp)
  · rw [Int.sign_eq_one_of_pos positive, Int.sign_eq_one_iff_pos] at sign
    have found := (Int.fdiv_fmod_unique positive).mpr ⟨split, by omega, by grind⟩
    exact ⟨found.1.symm, found.2.symm⟩

theorem tdiv_of_sign_iff (same : a < 0 ↔ b < 0) : a.tdiv b = |a| / |b| := by
  rw [← Int.tdiv_eq_ediv_of_nonneg (abs_nonneg a)]
  by_cases negative : a < 0
  · rw [abs_of_neg negative, abs_of_neg (same.mp negative), Int.neg_tdiv_neg]
  · rw [abs_of_nonneg (by omega), abs_of_nonneg (by omega)]

theorem tdiv_of_not_sign_iff (differ : ¬ (a < 0 ↔ b < 0)) : a.tdiv b = -(|a| / |b|) := by
  rw [← Int.tdiv_eq_ediv_of_nonneg (abs_nonneg a)]
  by_cases negative : a < 0
  · rw [abs_of_neg negative, abs_of_nonneg (by omega), Int.neg_tdiv, Int.neg_neg]
  · rw [abs_of_nonneg (by omega), abs_of_neg (by omega), Int.tdiv_neg, Int.neg_neg]

end Remainders

section Signs

variable {a b : Integer}

theorem quot_eq_error (canonical : b.Canonical) (isZero : b.toInt = 0) :
    a.quot b = .error .divisionByZero := by
  rw [quot, if_pos (canonical.isZero_iff.mpr isZero)]

theorem divisions_eq_error (canonical : b.Canonical) (isZero : b.toInt = 0) :
    a.quot b = .error .divisionByZero ∧ a.rem b = .error .divisionByZero ∧
      a.quotRem b = .error .divisionByZero ∧ a.div b = .error .divisionByZero ∧
      a.mod b = .error .divisionByZero ∧ a.divMod b = .error .divisionByZero := by
  have fails : a.quot b = .error .divisionByZero := quot_eq_error canonical isZero
  have pair : a.quotRem b = .error .divisionByZero := by
    rw [quotRem, fails]
    rfl
  have pair' : a.divMod b = .error .divisionByZero := by
    rw [divMod, pair]
    rfl
  refine ⟨fails, ?_, pair, ?_, ?_, pair'⟩
  · rw [rem, pair]
    rfl
  · rw [div, pair']
    rfl
  · rw [mod, pair']
    rfl

theorem toInt_quotPositive_abs (canonical : a.Canonical) (canonical' : b.Canonical)
    (nonzero : b.toInt ≠ 0) : (quotPositive a.abs b.abs).toInt = |a.toInt| / |b.toInt| := by
  rw [toInt_quotPositive canonical.abs canonical'.abs, toInt_abs, toInt_abs]
  · rw [toInt_abs]
    exact abs_nonneg _
  · rw [toInt_abs]
    exact abs_pos.mpr nonzero

theorem sign_iff_negative_eq (a b : Integer) :
    (a.toInt < 0 ↔ b.toInt < 0) ↔ a.negative = b.negative := by
  rw [toInt_lt_zero_iff, toInt_lt_zero_iff, Bool.coe_iff_coe]

theorem quot_of_ne_zero (some : a.isZero = false) (some' : b.isZero = false) :
    a.quot b = .ok (if a.negative = b.negative then quotPositive a.abs b.abs
      else -quotPositive a.abs b.abs) := by
  rw [quot, some, some', abs, abs]
  cases a.negative <;> cases b.negative <;> rfl

theorem exists_quot (canonical : a.Canonical) (canonical' : b.Canonical) (nonzero : b.toInt ≠ 0) :
    ∃ q, a.quot b = .ok q ∧ q.toInt = a.toInt.tdiv b.toInt := by
  have some : b.isZero = false := by
    rwa [← Bool.not_eq_true, canonical'.isZero_iff]
  by_cases zero : a.toInt = 0
  · refine ⟨.zero, ?_, by rw [zero, toInt_zero, Int.zero_tdiv]⟩
    rw [quot, some, canonical.isZero_iff.mpr zero]
    rfl
  · have some' : a.isZero = false := by
      rwa [← Bool.not_eq_true, canonical.isZero_iff]
    refine ⟨_, quot_of_ne_zero some' some, ?_⟩
    have magnitude := toInt_quotPositive_abs canonical canonical' nonzero
    have signs := sign_iff_negative_eq a b
    split
    · next same => rw [magnitude, tdiv_of_sign_iff (signs.mpr same)]
    · next differ => rw [toInt_neg, magnitude, tdiv_of_not_sign_iff (mt signs.mp differ)]

theorem exists_quotRem (canonical : a.Canonical) (canonical' : b.Canonical)
    (nonzero : b.toInt ≠ 0) : ∃ q r, a.quot b = .ok q ∧ a.quotRem b = .ok (q, r) ∧ a.rem b = .ok r ∧
      q.toInt = a.toInt.tdiv b.toInt ∧ r.toInt = a.toInt.tmod b.toInt ∧
      IsQuotRem a.toInt b.toInt q.toInt r.toInt := by
  obtain ⟨q, found, quotient⟩ := exists_quot canonical canonical' nonzero
  have remainder : (a - q * b).toInt = a.toInt.tmod b.toInt := by
    rw [toInt_sub, toInt_mul, quotient, Int.tmod_def, Int.mul_comm]
  refine ⟨q, a - q * b, found, ?_, ?_, quotient, remainder, ?_⟩
  · rw [quotRem, found]
    rfl
  · rw [rem, quotRem, found]
    rfl
  · rw [quotient, remainder]
    exact isQuotRem_tdiv nonzero

theorem exists_divMod (canonical : a.Canonical) (canonical' : b.Canonical)
    (nonzero : b.toInt ≠ 0) : ∃ d m, a.divMod b = .ok (d, m) ∧ a.div b = .ok d ∧ a.mod b = .ok m ∧
      IsDivMod a.toInt b.toInt d.toInt m.toInt := by
  obtain ⟨q, r, -, found, -, -, -, rounded⟩ := exists_quotRem canonical canonical' nonzero
  have isZero := (canonical_quotRem found).2.isZero_iff
  have signs := sign_iff_negative_eq a b
  by_cases down : (a.negative != b.negative && !r.isZero) = true
  · have pair : a.divMod b = .ok (q - one, r + b) := by
      rw [divMod, found]
      exact if_pos down
    rw [Bool.and_eq_true, bne_iff_ne, Bool.not_eq_true', ← Bool.not_eq_true, isZero] at down
    refine ⟨q - one, r + b, pair, by rw [div, pair]; rfl, by rw [mod, pair]; rfl, ?_⟩
    rw [toInt_sub, toInt_one, toInt_add]
    exact rounded.isDivMod_sub_one down.2 (mt signs.mp down.1)
  · have pair : a.divMod b = .ok (q, r) := by
      rw [divMod, found]
      exact if_neg down
    rw [Bool.and_eq_true, bne_iff_ne, Bool.not_eq_true', ← Bool.not_eq_true, isZero] at down
    refine ⟨q, r, pair, by rw [div, pair]; rfl, by rw [mod, pair]; rfl, rounded.isDivMod ?_⟩
    rw [signs]
    tauto

end Signs

/-- A division by zero fails in each of its six forms. Any other ends after finitely many
rounds of finitely many steps and gives the quotient rounded toward zero with the remainder
that has the sign of the dividend, or the quotient rounded down with the one that has the
sign of the divisor. -/
theorem divisions_exact {a b : Integer} (canonical : a.Canonical) (canonical' : b.Canonical) :
    (b.toInt = 0 →
      a.quot b = .error .divisionByZero ∧ a.rem b = .error .divisionByZero ∧
      a.quotRem b = .error .divisionByZero ∧ a.div b = .error .divisionByZero ∧
      a.mod b = .error .divisionByZero ∧ a.divMod b = .error .divisionByZero) ∧
    (b.toInt ≠ 0 →
      Rounds b.abs zero a.abs (quotPositive a.abs b.abs) ∧
      ∃ q r d m, a.quot b = .ok q ∧ a.rem b = .ok r ∧ a.quotRem b = .ok (q, r) ∧
        a.div b = .ok d ∧ a.mod b = .ok m ∧ a.divMod b = .ok (d, m) ∧
        IsQuotRem a.toInt b.toInt q.toInt r.toInt ∧ q.toInt = a.toInt.tdiv b.toInt ∧
        IsDivMod a.toInt b.toInt d.toInt m.toInt ∧ d.toInt = a.toInt.fdiv b.toInt) := by
  constructor
  · exact divisions_eq_error canonical'
  · intro nonzero
    have ends : Rounds b.abs zero a.abs (quotPositive a.abs b.abs) := by
      apply rounds_quotPositive canonical.abs canonical'.abs
      · rw [toInt_abs]
        exact abs_nonneg _
      · rw [toInt_abs]
        exact abs_pos.mpr nonzero
    obtain ⟨q, r, found, pair, rest, quotient, -, rounded⟩ :=
      exists_quotRem canonical canonical' nonzero
    obtain ⟨d, m, pair', found', rest', floor⟩ := exists_divMod canonical canonical' nonzero
    exact ⟨ends, q, r, d, m, found, rest, pair, found', rest', pair', rounded, quotient, floor,
      floor.eq_fdiv.1⟩

/-- A dividend of four words and a negative divisor. -/
theorem divisions_exact_words :
    let a : Integer := ⟨[5, 0, 0, 1], false⟩
    let b : Integer := ofInt32 (-7)
    a.Canonical ∧ b.Canonical ∧ b.toInt ≠ 0 ∧
      ∃ q r d m, a.quotRem b = .ok (q, r) ∧ a.divMod b = .ok (d, m) ∧
        q.toInt = -11318308930609191084791992905 ∧ r.toInt = 6 ∧
        d.toInt = -11318308930609191084791992906 ∧ m.toInt = -1 := by
  intro a b
  have canonical : a.Canonical := by decide
  have canonical' : b.Canonical := by decide
  have dividend : a.toInt = 2 ^ 96 + 5 := by decide
  have divisor : b.toInt = -7 := by decide
  have nonzero : b.toInt ≠ 0 := by omega
  obtain ⟨-, q, r, d, m, -, -, pair, -, -, pair', rounded, quotient, floor, quotient'⟩ :=
    (divisions_exact canonical canonical').2 nonzero
  have remainder := rounded.eq
  have remainder' := floor.eq
  rw [dividend, divisor] at quotient quotient' remainder remainder'
  have value : Int.tdiv (2 ^ 96 + 5) (-7) = -11318308930609191084791992905 := by decide
  have value' : Int.fdiv (2 ^ 96 + 5) (-7) = -11318308930609191084791992906 := by decide
  exact ⟨canonical, canonical', nonzero, q, r, d, m, pair, pair', by omega, by omega, by omega,
    by omega⟩

end CallByNeed.Integer
