import CallByNeed.Proofs.Denotation
import CallByNeed.Proofs.Rounding

set_option autoImplicit false

/-!
Integers from doubles.

The powers of `2 ^ 32` are exact as doubles up to the first that is infinite, and
a number that is not below such a power is divided by it without rounding. So
the words of a double are those of its integer part.
-/

namespace CallByNeed

namespace Format

variable {f : Format}

/-- A number on the grid is a short significand at its spacing. -/
theorem OnGrid.exists_significand {n : Nat} (onGrid : f.OnGrid n) :
    ∃ k ≤ 2 ^ (f.fraction + 1), n = k * 2 ^ f.gap n := by
  obtain ⟨k, split⟩ := (f.aligned_iff n).mp onGrid.2
  refine ⟨k, ?_, by rwa [Nat.mul_comm]⟩
  have bound : n < 2 ^ (f.fraction + 1) * 2 ^ f.gap n := by
    rw [← Nat.pow_add]
    refine Nat.lt_of_lt_of_le Nat.lt_log2_self (Nat.pow_le_pow_right (by decide) ?_)
    unfold gap
    omega
  apply Nat.le_of_lt
  apply Nat.lt_of_mul_lt_mul_right (a := 2 ^ f.gap n)
  rwa [Nat.mul_comm k, ← show n = 2 ^ f.gap n * k from split]

theorem OnGrid.div_two_pow {n j : Nat} (onGrid : f.OnGrid n) (h : j ≤ f.gap n) :
    f.OnGrid (n / 2 ^ j) := by
  obtain ⟨k, narrow, split⟩ := onGrid.exists_significand
  refine ⟨Nat.lt_of_le_of_lt (Nat.div_le_self _ _) onGrid.1, ?_⟩
  have quotient : n / 2 ^ j = k <<< (f.gap n - j) := by
    have power : 2 ^ f.gap n = 2 ^ (f.gap n - j) * 2 ^ j := by
      rw [← Nat.pow_add, Nat.sub_add_cancel h]
    rw [Nat.shiftLeft_eq]
    conv => lhs; rw [split, power, ← Nat.mul_assoc]
    exact Nat.mul_div_cancel _ (Nat.two_pow_pos j)
  rw [quotient]
  exact f.aligned_shiftLeft (by rwa [Nat.one_shiftLeft])

theorem OnGrid.mod_two_pow {n : Nat} (onGrid : f.OnGrid n) (j : Nat) : f.OnGrid (n % 2 ^ j) := by
  refine ⟨Nat.lt_of_le_of_lt (Nat.mod_le _ _) onGrid.1, (f.aligned_iff _).mpr ?_⟩
  have spaced := f.gap_mono (Nat.mod_le n (2 ^ j))
  rcases Nat.le_total (f.gap n) j with narrow | wide
  · exact (Nat.dvd_mod_iff (Nat.pow_dvd_pow 2 (Nat.le_trans spaced narrow))).mpr
      (onGrid.2.dvd spaced)
  · rw [Nat.mod_eq_zero_of_dvd (onGrid.2.dvd wide)]
    exact Nat.dvd_zero _

theorem OnGrid.floor {n : Nat} (onGrid : f.OnGrid n) (j : Nat) : f.OnGrid (n >>> j <<< j) := by
  have below : n >>> j <<< j ≤ n := by
    rw [Nat.shiftRight_eq_div_pow, Nat.shiftLeft_eq]
    exact Nat.div_mul_le_self _ _
  refine ⟨Nat.lt_of_le_of_lt below onGrid.1, (f.aligned_iff _).mpr ?_⟩
  have spaced := f.gap_mono below
  rw [Nat.shiftRight_eq_div_pow, Nat.shiftLeft_eq] at *
  rcases Nat.le_total (f.gap n) j with narrow | wide
  · exact Nat.dvd_trans (Nat.pow_dvd_pow 2 (Nat.le_trans spaced narrow)) (Nat.dvd_mul_left _ _)
  · rw [Nat.div_mul_cancel (onGrid.2.dvd wide)]
    exact onGrid.2.dvd (Nat.le_refl _)

end Format

namespace Floating

/-- A number of so few quanta is below one. -/
theorem units_eq_zero {n : Nat} (small : n ≤ 1 <<< 52) : n >>> Format.double.scale = 0 := by
  rw [Nat.shiftRight_eq_div_pow]
  refine Nat.div_eq_of_lt (Nat.lt_of_le_of_lt small ?_)
  rw [Nat.one_shiftLeft]
  exact Nat.pow_lt_pow_right (by decide) (by decide)

/-- The integer part of a number divided by a power of two. -/
theorem toInt_div_two_pow {x : Double} {j n : Nat} (onGrid : Format.double.OnGrid n)
    (power : x.IsNat (2 ^ j)) :
    ((.finite false n onGrid : Double) / x).toInt = (n >>> Format.double.scale / 2 ^ j : Nat) := by
  obtain ⟨-, rfl⟩ := power
  have positive : 0 < 2 ^ j <<< Format.double.scale := units_pos (Nat.two_pow_pos j)
  have order : (n / 2 ^ j) >>> Format.double.scale = n >>> Format.double.scale / 2 ^ j := by
    simp only [Nat.shiftRight_eq_div_pow, Nat.div_div_eq_div_mul]
    rw [Nat.mul_comm]
  rw [finite_div_finite (Nat.ne_of_gt positive), ← order]
  by_cases large : j ≤ Format.double.gap n
  · have exact : n / 2 ^ j * 2 ^ j = n := Nat.div_mul_cancel (onGrid.2.dvd large)
    rw [ofQuanta_eq positive (n := n / 2 ^ j) _ (onGrid.div_two_pow large)]
    · exact toInt_finite
    · rw [Nat.shiftLeft_eq, Nat.shiftLeft_eq, ← Nat.mul_assoc, exact]
  · have small : n ≤ 2 ^ 52 * 2 ^ j := by
      rw [← Nat.pow_add]
      refine Nat.le_of_lt (Nat.lt_of_lt_of_le Nat.lt_log2_self ?_)
      refine Nat.pow_le_pow_right (by decide) ?_
      have fraction : Format.double.fraction = 52 := rfl
      unfold Format.gap at large
      omega
    have aligned : Format.double.Aligned (1 <<< 52) := Format.aligned_shiftLeft _ (by decide)
    have quotient : Format.double.round (n <<< Format.double.scale)
        (2 ^ j <<< Format.double.scale) ≤ 1 <<< 52 := by
      apply Format.round_le aligned
      rw [Nat.shiftLeft_eq n, Nat.shiftLeft_eq (2 ^ j), ← Nat.mul_assoc]
      exact Nat.mul_le_mul_right _ small
    have finite : 1 <<< 52 < 1 <<< Format.double.limit := by
      rw [Nat.one_shiftLeft, Nat.one_shiftLeft]
      exact Nat.pow_lt_pow_right (by decide) (by decide)
    refine (toInt_ofQuanta (Nat.lt_of_le_of_lt quotient finite)).trans ?_
    rw [units_eq_zero quotient, units_eq_zero (Nat.div_le_of_le_mul (by rwa [Nat.mul_comm]))]

@[simp] theorem trunc_finite {f : Format} (s : Bool) {n : Nat} (onGrid : f.OnGrid n) :
    (.finite s n onGrid : Floating f).trunc =
      .finite s (n >>> f.scale <<< f.scale) (onGrid.floor f.scale) :=
  ofQuanta_eq (by decide) (Nat.mul_one _).symm _

@[simp] theorem finite_mod_wordPower (s : Bool) {n : Nat} (onGrid : Format.double.OnGrid n) :
    (.finite s n onGrid : Double) % wordPower =
      .finite s (n % 2 ^ (32 + Format.double.scale)) (onGrid.mod_two_pow _) := by
  obtain ⟨_, power⟩ := isNat_wordPower
  have units : 2 ^ 32 <<< Format.double.scale = 2 ^ (32 + Format.double.scale) := by
    rw [Nat.shiftLeft_eq, ← Nat.pow_add]
  rw [power, finite_mod_finite (Nat.ne_of_gt (units_pos (by decide)))]
  simp only [units]
  exact ofQuanta_eq (by decide) (Nat.mul_one _).symm _

theorem toUInt32_of_isNat {x : Double} {k : Nat} (h : x.IsNat k) (small : k < 2 ^ 32) :
    x.toUInt32.toNat = k := by
  have value := h.toInt
  obtain ⟨_, rfl⟩ := h
  rw [toUInt32, value, Int.toNat_natCast, Nat.min_eq_left (by omega),
    UInt32.toNat_ofNat_of_lt' (by simpa using small)]

theorem finite_lt_zero_iff {s : Bool} {n : Nat} (onGrid : Format.double.OnGrid n) :
    (.finite s n onGrid : Double).lt 0 = true ↔ signed s n < 0 := by
  simpa using isNat_zero.finite_lt s onGrid

/-- A remainder below zero is lifted without rounding. -/
theorem isNat_add_wordPower {j : Nat} (onGrid : Format.double.OnGrid (j <<< Format.double.scale))
    (small : j < 2 ^ 32) :
    (.finite true (j <<< Format.double.scale) onGrid + wordPower.abs : Double).IsNat
      (2 ^ 32 - j) := by
  obtain ⟨_, power⟩ := isNat_wordPower
  refine ⟨Format.onGrid_nat (by omega), ?_⟩
  rw [power, Floating.abs, neg_finite_add_finite (units_lt_units_iff.mpr small)]
  apply ofQuanta_eq (by decide)
  simp only [Nat.shiftLeft_eq, Nat.mul_one, Nat.sub_mul]

theorem toNat_remEuclid_wordPower (s : Bool) {k : Nat}
    (onGrid : Format.double.OnGrid (k <<< Format.double.scale)) :
    (((.finite s (k <<< Format.double.scale) onGrid : Double).remEuclid wordPower).toUInt32.toNat
      : Int) = signed s k % 2 ^ 32 := by
  have residue : (k <<< Format.double.scale) % 2 ^ (32 + Format.double.scale) =
      (k % 2 ^ 32) <<< Format.double.scale := by
    rw [Nat.shiftLeft_eq, Nat.shiftLeft_eq, Nat.pow_add, Nat.mul_mod_mul_right]
  have small : k % 2 ^ 32 < 2 ^ 32 := Nat.mod_lt _ (by decide)
  have units : 0 < k % 2 ^ 32 → 0 < (k % 2 ^ 32) <<< Format.double.scale := units_pos
  rw [remEuclid, finite_mod_wordPower]
  simp only [residue, finite_lt_zero_iff]
  cases s with
  | false =>
    rw [if_neg (by simp only [signed_false]; omega), toUInt32_of_isNat ⟨_, rfl⟩ small]
    simp
  | true =>
    by_cases whole : k % 2 ^ 32 = 0
    · simp only [whole, Nat.zero_shiftLeft]
      rw [if_neg (by simp), signed_true]
      exact (Int.emod_eq_zero_of_dvd (by omega)).symm
    · rw [if_pos (by simp only [signed_true]; omega),
        toUInt32_of_isNat (isNat_add_wordPower _ small) (by omega)]
      simp only [signed_true]
      clear residue units
      omega

end Floating

/-- The low word of the integer part; zero for what is not finite. -/
@[simp]
theorem Word.ofDouble_eq (value : Double) : Word.ofDouble value = UInt32.ofInt value.toInt := by
  cases value with
  | nan => rfl
  | infinite => rfl
  | finite s n onGrid =>
    rw [Word.ofDouble, if_neg (by simp [Floating.isFinite]), Floating.trunc_finite,
      ← UInt32.toNat_inj, ← Int.natCast_inj, Floating.toNat_remEuclid_wordPower, Word.toNat_ofInt]
    rfl

namespace Integer

open Floating

/-! The powers of `2 ^ 32` -/

/-- The power with this exponent, infinite from the thirty-second on. -/
def IsWordPower (k : Nat) (x : Double) : Prop :=
  if k < 32 then x.IsNat (2 ^ (32 * k)) else x = .infinite false

theorem isWordPower_zero : IsWordPower 0 1 := isNat_ofInt (n := 1) (by decide)

theorem IsWordPower.succ {k : Nat} {x : Double} (h : IsWordPower k x) (small : k < 32) :
    IsWordPower (k + 1) (x * wordPower) := by
  rw [IsWordPower, if_pos small] at h
  have power : 2 ^ (32 * (k + 1)) = 2 ^ (32 * k) * 2 ^ 32 := by rw [Nat.mul_succ, Nat.pow_add]
  unfold IsWordPower
  split
  · next small' =>
    rw [power]
    apply h.mul isNat_wordPower
    rw [← power]
    exact Format.onGrid_two_pow (by omega)
  · next large =>
    obtain ⟨-, rfl⟩ := h
    obtain ⟨_, factor⟩ := isNat_wordPower
    have limit : Format.double.limit = 32 * (k + 1) + Format.double.scale := by
      rw [show k = 31 by omega]
      rfl
    rw [factor, finite_mul_finite]
    refine ofQuanta_eq_infinite (n := 1 <<< Format.double.limit) scale_pos ?_ ?_ (Nat.le_refl _)
    · rw [limit]
      generalize Format.double.scale = scale
      rw [Nat.shiftLeft_eq, Nat.shiftLeft_eq, Nat.one_shiftLeft, Nat.one_shiftLeft, Nat.pow_add,
        power]
      ac_rfl
    · exact Format.aligned_shiftLeft _ (by rw [Nat.one_shiftLeft]; exact Nat.one_le_two_pow)

/-! Words of a double -/

section Words

variable {n : Nat} (onGrid : Format.double.OnGrid n)

theorem units_lt (onGrid : Format.double.OnGrid n) {k : Nat} (large : 32 ≤ k) :
    n >>> Format.double.scale < 2 ^ (32 * k) := by
  rw [Nat.shiftRight_eq_div_pow]
  apply Nat.div_lt_of_lt_mul
  refine Nat.lt_of_lt_of_le onGrid.1 ?_
  rw [← Nat.pow_add, Nat.one_shiftLeft]
  apply Nat.pow_le_pow_right (by decide)
  show 2098 ≤ 1074 + 32 * k
  omega

theorem toNat_ofDouble_div {x : Double} {j : Nat} (power : x.IsNat (2 ^ j)) :
    (Word.ofDouble ((.finite false n onGrid : Double) / x)).toNat =
      n >>> Format.double.scale / 2 ^ j % 2 ^ 32 := by
  have residue := Word.toNat_ofInt (n >>> Format.double.scale / 2 ^ j : Nat)
  rw [Word.ofDouble_eq, toInt_div_two_pow onGrid power]
  omega

theorem wordsToNat_powersFrom {k count : Nat} {x : Double} (h : IsWordPower k x)
    (ends : k + count = 33) :
    wordsToNat (((powersFrom x count).takeWhile fun power => power.le (.finite false n onGrid)).map
      fun power => Word.ofDouble (.finite false n onGrid / power)) =
      n >>> Format.double.scale / 2 ^ (32 * k) := by
  induction count generalizing k x with
  | zero => rw [Nat.div_eq_of_lt (units_lt onGrid (by omega)), powersFrom]; rfl
  | succ count ih =>
    rw [powersFrom, List.takeWhile_cons]
    by_cases small : k < 32
    · have next := ih (h.succ small) (by omega)
      rw [IsWordPower, if_pos small] at h
      have inside : x.le (.finite false n onGrid) = true ↔
          2 ^ (32 * k) <<< Format.double.scale ≤ n :=
        h.le_finite.trans Int.ofNat_le
      by_cases fits : 2 ^ (32 * k) <<< Format.double.scale ≤ n
      · rw [if_pos (inside.mpr fits), List.map_cons, wordsToNat, next,
          toNat_ofDouble_div onGrid h, Nat.mul_succ, Nat.pow_add, ← Nat.div_div_eq_div_mul]
        exact Nat.mod_add_div _ _
      · rw [if_neg (mt inside.mp fits)]
        symm
        apply Nat.div_eq_of_lt
        rw [Nat.shiftRight_eq_div_pow]
        apply Nat.div_lt_of_lt_mul
        rw [Nat.mul_comm, ← Nat.shiftLeft_eq]
        exact Nat.lt_of_not_le fits
    · rw [IsWordPower, if_neg small] at h
      subst h
      rw [infinite_le_finite, Nat.div_eq_of_lt (units_lt onGrid (by omega))]
      rfl

theorem wordsToNat_wordsOfDouble :
    wordsToNat (wordsOfDouble (.finite false n onGrid)) = n >>> Format.double.scale := by
  rw [wordsOfDouble, wordPowers, wordsToNat_powersFrom onGrid isWordPower_zero rfl]
  simp

end Words

@[simp] theorem wordsOfDouble_negative_zero (onGrid : Format.double.OnGrid 0) :
    wordsOfDouble (.finite true 0 onGrid) = [] := by
  rw [wordsOfDouble, wordPowers, powersFrom, List.takeWhile_cons, if_neg]
  · rfl
  · have positive := scale_pos (f := .double)
    rw [isNat_one.le_finite]
    simp only [signed_true]
    omega

theorem toInt_make_wordsOfDouble {n : Nat} (onGrid : Format.double.OnGrid n) :
    (make (wordsOfDouble (.finite false n onGrid)) false).toInt =
      (n >>> Format.double.scale : Nat) := by
  rw [toInt_make, denote, if_neg Bool.false_ne_true, Int.natCast_zero, Int.sub_zero,
    wordsToNat_wordsOfDouble onGrid]

/-- The integer of a double is its integer part; what is not finite gives zero. -/
@[simp] theorem toInt_ofDouble (x : Double) : (ofDouble x).toInt = x.toInt := by
  cases x with
  | nan => rfl
  | infinite => rfl
  | finite s n onGrid =>
    have negative := finite_lt_zero_iff (s := s) onGrid
    rw [ofDouble, if_neg (by simp [isFinite])]
    cases s with
    | false =>
      rw [if_neg (by rw [negative]; simp)]
      exact toInt_make_wordsOfDouble onGrid
    | true =>
      by_cases positive : 0 < n
      · rw [if_pos (by rw [negative]; simpa using positive), toInt_neg]
        exact congrArg Neg.neg (toInt_make_wordsOfDouble onGrid)
      · obtain rfl : n = 0 := by omega
        rw [if_neg (by rw [negative]; simp), wordsOfDouble_negative_zero]
        simp [Floating.toInt, denote, wordsToNat]

end Integer

end CallByNeed
