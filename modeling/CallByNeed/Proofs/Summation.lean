import CallByNeed.Proofs.Conversion
import CallByNeed.Proofs.Nearness

set_option autoImplicit false

/-!
Integers to doubles.

The words are added from the lowest on, and each addition rounds. Even so no double lies
between the sum and the integer, and the sum is the nearest double if only the last
addition rounds. From the thirty-third word on the power of `2 ^ 32` is infinite: a word
that is zero makes the sum something that is not a number, and any other makes it infinite.
-/

namespace CallByNeed

namespace Integer

open Floating

/-! Finite powers -/

section Finite

variable {k : Nat} {x power : Double}

theorem double_limit : Format.double.limit = 32 + (32 * 31 + Format.double.scale) := rfl

theorem word_fits (w : UInt32) (small : k < 32) :
    (w.toNat + 1) * 2 ^ (32 * k + Format.double.scale) ≤ 1 <<< Format.double.limit := by
  rw [Nat.one_shiftLeft, double_limit, Nat.pow_add 2 32]
  exact Nat.mul_le_mul w.toNat_lt (Nat.pow_le_pow_right (by decide) (by omega))

theorem isNat_word_mul (w : UInt32) (h : IsWordPower k power) (small : k < 32) :
    (ofInt w.toNat * power : Double).IsNat (w.toNat * 2 ^ (32 * k)) := by
  have bound := w.toNat_lt
  have onGrid : Format.double.OnGrid ((w.toNat * 2 ^ (32 * k)) <<< Format.double.scale) := by
    rw [← Nat.shiftLeft_eq, ← Nat.shiftLeft_add]
    constructor
    · have fits := word_fits w small
      rw [Nat.succ_mul] at fits
      have := Nat.two_pow_pos (32 * k + Format.double.scale)
      rw [Nat.shiftLeft_eq]
      omega
    · apply Format.aligned_shiftLeft
      exact Nat.le_trans (Nat.le_of_lt bound) (by decide)
  rw [IsWordPower, if_pos small] at h
  exact (isNat_ofInt (by omega)).mul h onGrid

/-- A step of the sum. -/
theorem approximates_add_word {n : Nat} (w : UInt32) (near : x.Approximates n)
    (low : n < 2 ^ (32 * k)) (h : IsWordPower k power) (small : k < 32) :
    (x + ofInt w.toNat * power).Approximates (n + w.toNat * 2 ^ (32 * k)) := by
  obtain ⟨p, stands, brackets⟩ := near
  have below : 32 * k + Format.double.scale < Format.double.limit := by
    have limit := double_limit
    omega
  have low' : n * 2 ^ Format.double.scale < 2 ^ (32 * k + Format.double.scale) := by
    rw [Nat.pow_add]
    exact Nat.mul_lt_mul_of_pos_right low (Nat.two_pow_pos _)
  have carry : p ≤ 2 ^ (32 * k + Format.double.scale) :=
    (brackets _ (Format.holds_two_pow below.le)).2 low'.le
  obtain ⟨_, rfl⟩ := stands.eq_finite (by
    rw [Nat.one_shiftLeft]
    exact Nat.lt_of_le_of_lt carry (Nat.pow_lt_pow_right (by decide) below))
  obtain ⟨_, product⟩ := isNat_word_mul w h small
  rw [product, finite_add_finite]
  refine ⟨_, standsAt_ofQuanta _ 1, ?_⟩
  rw [Nat.shiftLeft_eq, Nat.add_mul, Nat.mul_assoc, ← Nat.pow_add]
  exact brackets.add low' below.le (word_fits w small)

theorem add_word_lt {n : Nat} (w : UInt32) (low : n < 2 ^ (32 * k)) :
    n + w.toNat * 2 ^ (32 * k) < 2 ^ (32 * (k + 1)) := by
  have : (w.toNat + 1) * 2 ^ (32 * k) ≤ 2 ^ 32 * 2 ^ (32 * k) :=
    Nat.mul_le_mul_right _ w.toNat_lt
  rw [Nat.mul_succ, Nat.pow_add, Nat.mul_comm (2 ^ (32 * k))]
  rw [Nat.succ_mul] at this
  omega

theorem approximates_sumOfWords {n : Nat} {ws : List UInt32} (near : x.Approximates n)
    (low : n < 2 ^ (32 * k)) (h : IsWordPower k power) (fits : k + ws.length ≤ 32) :
    (sumOfWords x power ws).Approximates (n + wordsToNat ws * 2 ^ (32 * k)) := by
  induction ws generalizing x power k n with
  | nil => simpa [sumOfWords, wordsToNat] using near
  | cons w ws ih =>
    rw [List.length_cons] at fits
    have small : k < 32 := by omega
    have rest := ih (approximates_add_word w near low h small) (add_word_lt w low) (h.succ small)
      (by omega)
    rw [sumOfWords, wordsToNat]
    convert rest using 1
    rw [Nat.mul_succ, Nat.pow_add]
    ring

/-- The sum can be stopped and continued. -/
theorem exists_sumOfWords_append (us : List UInt32) (h : IsWordPower k power)
    (fits : k + us.length ≤ 32) :
    ∃ next, IsWordPower (k + us.length) next ∧
      ∀ vs, sumOfWords x power (us ++ vs) = sumOfWords (sumOfWords x power us) next vs := by
  induction us generalizing x power k with
  | nil => exact ⟨power, h, fun _ => rfl⟩
  | cons w us ih =>
    rw [List.length_cons] at fits
    obtain ⟨next, h', continues⟩ := ih (h.succ (by omega)) (by omega)
    rw [List.length_cons, ← Nat.add_assoc, Nat.add_right_comm]
    exact ⟨next, h', continues⟩

end Finite

/-! Infinite powers -/

section Infinite

variable {x : Double} {ws : List UInt32}

theorem position_add {y : Double} (missing : x.position = none ∨ y.position = none) :
    (x + y).position = none := by
  cases x with
  | nan => rfl
  | infinite | finite =>
    cases y with
    | nan => rfl
    | infinite | finite => simp [position] at missing

theorem position_sumOfWords {power : Double} (missing : x.position = none) :
    (sumOfWords x power ws).position = none := by
  induction ws generalizing x power with
  | nil => exact missing
  | cons w ws ih => exact ih (position_add (.inl missing))

theorem infinite_mul_finite {f : Format} {n : Nat} {onGrid : f.OnGrid n} :
    (.infinite false : Floating f) * .finite false n onGrid =
      if n = 0 then invalid else .infinite false :=
  rfl

theorem finite_mul_infinite {f : Format} {n : Nat} {onGrid : f.OnGrid n} :
    (.finite false n onGrid : Floating f) * .infinite false =
      if n = 0 then invalid else .infinite false :=
  rfl

@[simp]
theorem infinite_mul_wordPower : (.infinite false * wordPower : Double) = .infinite false := by
  obtain ⟨_, factor⟩ := isNat_wordPower
  rw [factor, infinite_mul_finite, if_neg (units_pos (Nat.two_pow_pos 32)).ne']

theorem word_mul_infinite (w : UInt32) :
    (ofInt w.toNat * .infinite false : Double) = if w = 0 then invalid else .infinite false := by
  have bound := w.toNat_lt
  obtain ⟨_, factor⟩ := isNat_ofInt (n := w.toNat) (by omega)
  have zero : w.toNat <<< Format.double.scale = 0 ↔ w = 0 := by
    rw [Nat.shiftLeft_eq_zero_iff, ← UInt32.toNat_inj]
    rfl
  rw [factor, finite_mul_infinite, if_congr zero rfl rfl]

/-- A word that is zero has no product with an infinite power. -/
theorem position_sumOfWords_infinite (zero : 0 ∈ ws) :
    (sumOfWords x (.infinite false) ws).position = none := by
  induction ws generalizing x with
  | nil => cases zero
  | cons w ws ih =>
    rw [sumOfWords, infinite_mul_wordPower, word_mul_infinite]
    rcases List.mem_cons.mp zero with rfl | later
    · exact position_sumOfWords (position_add (.inr rfl))
    · exact ih later

theorem add_infinite {p : Nat} (stands : x.StandsAt p) : x + .infinite false = .infinite false := by
  cases x with
  | nan => cases stands.2
  | infinite s =>
    obtain rfl : s = false := stands.1
    rfl
  | finite => rfl

theorem sumOfWords_infinite {p : Nat} (stands : x.StandsAt p) (nonempty : ws ≠ [])
    (nonzero : 0 ∉ ws) : sumOfWords x (.infinite false) ws = .infinite false := by
  induction ws generalizing x p with
  | nil => contradiction
  | cons w ws ih =>
    rw [List.mem_cons, not_or] at nonzero
    rw [sumOfWords, infinite_mul_wordPower, word_mul_infinite, if_neg (Ne.symm nonzero.1),
      add_infinite stands]
    by_cases last : ws = []
    · rw [last]
      rfl
    · exact ih (p := 1 <<< Format.double.limit) ⟨rfl, rfl⟩ last nonzero.2

end Infinite

/-! All words -/

section Words

variable {ws : List UInt32}

theorem wordsToNat_concat (us : List UInt32) (w : UInt32) :
    wordsToNat (us ++ [w]) = wordsToNat us + w.toNat * 2 ^ (32 * us.length) := by
  rw [wordsToNat_append, Nat.shiftLeft_eq]
  rfl

theorem approximates_zero : (0 : Double).Approximates 0 := by
  obtain ⟨_, zero⟩ := isNat_ofInt (n := 0) (by decide)
  rw [show (0 : Double) = ofInt (0 : Nat) from rfl, zero]
  refine ⟨0, ⟨rfl, ?_⟩, ?_⟩
  · simp [position]
  · rw [Nat.zero_mul]
    exact Format.brackets_zero _

theorem approximates_words (short : ws.length ≤ 32) :
    (sumOfWords 0 1 ws).Approximates (wordsToNat ws) := by
  have sum := approximates_sumOfWords approximates_zero (by decide) isWordPower_zero
    (show 0 + ws.length ≤ 32 by omega)
  simpa using sum

/-- From the thirty-third word on the power is infinite. -/
theorem exists_sumOfWords_drop (long : 32 ≤ ws.length) : ∃ (x : Double) (p : Nat), x.StandsAt p ∧
    sumOfWords 0 1 ws = sumOfWords x (.infinite false) (ws.drop 32) := by
  have length : (ws.take 32).length = 32 := List.length_take_of_le long
  obtain ⟨next, power, continues⟩ := exists_sumOfWords_append (x := 0) (ws.take 32)
    isWordPower_zero (by omega)
  obtain ⟨p, stands, -⟩ := approximates_words length.le
  rw [length] at power
  refine ⟨_, p, stands, ?_⟩
  rw [← show next = .infinite false from power, ← continues, List.take_append_drop]

theorem position_words_eq_none_iff : (sumOfWords 0 1 ws).position = none ↔ 0 ∈ ws.drop 32 := by
  rcases le_or_gt ws.length 32 with short | long
  · rw [List.drop_of_length_le short]
    simp [(approximates_words short).position_ne_none]
  · obtain ⟨x, p, stands, sum⟩ := exists_sumOfWords_drop long.le
    rw [sum]
    refine ⟨fun missing => ?_, position_sumOfWords_infinite⟩
    by_contra nonzero
    have nonempty : ws.drop 32 ≠ [] := by simp [long]
    rw [sumOfWords_infinite stands nonempty nonzero] at missing
    cases missing

/-- If the low words are exact, only the last addition rounds. -/
theorem sumOfWords_eq_ofQuanta {j : Nat} (small : j < 32) (short : ws.length ≤ j + 1)
    (exact : Format.double.OnGrid ((wordsToNat ws % 2 ^ (32 * j)) <<< Format.double.scale)) :
    sumOfWords 0 1 ws = ofQuanta false (wordsToNat ws * 2 ^ Format.double.scale) 1 := by
  have below {us : List UInt32} (h : us.length ≤ j) : wordsToNat us < 2 ^ (32 * j) := by
    have bound := wordsToNat_lt us
    rw [Nat.one_shiftLeft] at bound
    exact bound.trans_le (Nat.pow_le_pow_right (by decide) (by omega))
  rcases Nat.lt_or_eq_of_le short with shorter | full
  · rw [Nat.mod_eq_of_lt (below (by omega))] at exact
    obtain ⟨onGrid, sum⟩ := (approximates_words (by omega)).isNat exact
    rw [sum, ← Nat.shiftLeft_eq, ofQuanta_eq (by decide) (Nat.mul_one _).symm onGrid]
  · rcases List.eq_nil_or_concat ws with rfl | ⟨us, w, rfl⟩
    · cases full
    · rw [List.concat_eq_append] at full exact ⊢
      have length : us.length = j := by simpa using full
      have sum := wordsToNat_concat us w
      rw [length] at sum
      have low : wordsToNat (us ++ [w]) % 2 ^ (32 * j) = wordsToNat us := by
        rw [sum, Nat.add_mul_mod_self_right, Nat.mod_eq_of_lt (below length.le)]
      rw [low] at exact
      obtain ⟨next, power, continues⟩ := exists_sumOfWords_append (x := 0) us isWordPower_zero
        (by omega)
      rw [Nat.zero_add, length] at power
      have lower := (approximates_words (by omega)).isNat exact
      rw [continues, sumOfWords, sumOfWords, lower.add_eq (isNat_word_mul w power small), sum,
        Nat.shiftLeft_eq]

theorem nearest_words {j : Nat} (small : j < 32) (short : ws.length ≤ j + 1)
    (exact : Format.double.OnGrid ((wordsToNat ws % 2 ^ (32 * j)) <<< Format.double.scale)) :
    Nearest (wordsToNat ws) (sumOfWords 0 1 ws) := by
  rw [sumOfWords_eq_ofQuanta small short exact]
  exact nearest_ofQuanta _

end Words

/-! Signs -/

section Signs

variable {a : Integer}

@[simp] theorem negative_abs (a : Integer) : a.abs.negative = false := by
  unfold abs
  split
  · exact negative_neg (by assumption)
  · exact Bool.not_eq_true _ ▸ by assumption

@[simp] theorem wordsToNat_abs (a : Integer) : wordsToNat a.abs.words = a.toInt.natAbs := by
  have magnitude := toInt_of_not_negative (negative_abs a)
  rw [toInt_abs, Int.abs_eq_natAbs] at magnitude
  exact_mod_cast magnitude.symm

/-- What holds of the sum of the words, and of opposites, holds of the double. -/
theorem toDouble_of_abs {P : Int → Double → Prop} (opposite : ∀ n x, P n x → P (-n) (-x))
    (sum : P a.toInt.natAbs (sumOfWords 0 1 a.abs.words)) : P a.toInt a.toDouble := by
  have sign := toInt_lt_zero_iff a
  unfold abs at sum
  unfold toDouble
  split at sum
  · next negative =>
    rw [if_pos negative]
    have := opposite _ _ sum
    rwa [show -(a.toInt.natAbs : Int) = a.toInt by have := sign.mpr negative; omega] at this
  · next positive =>
    rw [if_neg positive]
    rwa [show (a.toInt.natAbs : Int) = a.toInt by have := sign.not.mpr positive; omega] at sum

/-- The last word tells how large an integer is at least. -/
theorem Canonical.two_pow_le (canonical : a.Canonical) {i : Nat} (inside : i < a.words.length) :
    2 ^ (32 * i) ≤ a.toInt.natAbs := by
  obtain ⟨ws, negative⟩ := a
  rcases List.eq_nil_or_concat ws with rfl | ⟨us, w, rfl⟩
  · cases inside
  · rw [List.concat_eq_append] at canonical inside ⊢
    have bound := wordsToNat_lt us
    have place : 2 ^ (32 * i) ≤ 2 ^ (32 * us.length) := by
      rw [List.length_append, List.length_singleton] at inside
      exact Nat.pow_le_pow_right (by decide) (by omega)
    have next : 2 ^ (32 * (us ++ [w]).length) = 2 ^ 32 * 2 ^ (32 * us.length) := by
      rw [List.length_append, List.length_singleton, Nat.mul_succ, Nat.pow_add, Nat.mul_comm]
    have sum := wordsToNat_concat us w
    have top : w ≠ fillWord negative := by simpa [Canonical, fill] using canonical
    rw [Nat.one_shiftLeft] at bound
    rw [Ne, ← UInt32.toNat_inj] at top
    cases negative with
    | false =>
      have : 1 * 2 ^ (32 * us.length) ≤ w.toNat * 2 ^ (32 * us.length) :=
        Nat.mul_le_mul_right _ (Nat.pos_of_ne_zero top)
      show _ ≤ (denote (us ++ [w]) false).natAbs
      rw [denote, if_neg Bool.false_ne_true]
      omega
    | true =>
      have : (w.toNat + 2) * 2 ^ (32 * us.length) ≤ 2 ^ 32 * 2 ^ (32 * us.length) := by
        have small := w.toNat_lt
        have ones : (fillWord true).toNat = 2 ^ 32 - 1 := rfl
        exact Nat.mul_le_mul_right _ (by omega)
      rw [Nat.add_mul] at this
      show _ ≤ (denote (us ++ [w]) true).natAbs
      rw [denote, if_pos rfl, Nat.one_shiftLeft]
      omega

theorem Canonical.lt_length_abs_iff (canonical : a.Canonical) {i : Nat} :
    i < a.abs.words.length ↔ 2 ^ (32 * i) ≤ a.toInt.natAbs := by
  constructor
  · intro inside
    have := canonical.abs.two_pow_le inside
    rwa [toInt_abs, Int.natAbs_abs] at this
  · intro large
    have bound := wordsToNat_lt a.abs.words
    rw [wordsToNat_abs, Nat.one_shiftLeft] at bound
    have := (Nat.pow_lt_pow_iff_right (by decide)).mp (large.trans_lt bound)
    omega

theorem toNat_getD_abs (a : Integer) (i : Nat) :
    (a.abs.words.getD i 0).toNat = a.toInt.natAbs / 2 ^ (32 * i) % 2 ^ 32 := by
  have word := wordAt_eq a.abs i
  have residue := Word.toNat_ofInt (a.abs.toInt / 2 ^ (32 * i))
  rw [← word, toInt_abs, Int.abs_eq_natAbs, wordAt, fill, negative_abs] at residue
  exact_mod_cast residue

/-- Past the thirty-second word there is one that is zero. -/
theorem Canonical.zero_mem_drop_iff (canonical : a.Canonical) : 0 ∈ a.abs.words.drop 32 ↔
    ∃ i ≥ 32, 2 ^ (32 * i) ≤ a.toInt.natAbs ∧ a.toInt.natAbs / 2 ^ (32 * i) % 2 ^ 32 = 0 := by
  simp only [← toNat_getD_abs, ← canonical.lt_length_abs_iff]
  constructor
  · intro zero
    obtain ⟨i, inside, word⟩ := List.mem_drop_iff_getElem.mp zero
    refine ⟨32 + i, by omega, by omega, ?_⟩
    rw [List.getD_eq_getElem _ _ (by omega), word]
    rfl
  · rintro ⟨i, beyond, inside, zero⟩
    obtain ⟨j, rfl⟩ := Nat.exists_eq_add_of_le beyond
    refine List.mem_drop_iff_getElem.mpr ⟨j, by omega, ?_⟩
    rw [List.getD_eq_getElem _ _ inside] at zero
    exact UInt32.toNat_inj.mp zero

end Signs

/-! Doubles of integers -/

section Doubles

variable {a : Integer}

theorem Canonical.position_toDouble (canonical : a.Canonical) : a.toDouble.position = none ↔
    ∃ i ≥ 32, 2 ^ (32 * i) ≤ a.toInt.natAbs ∧ a.toInt.natAbs / 2 ^ (32 * i) % 2 ^ 32 = 0 := by
  rw [← canonical.zero_mem_drop_iff, ← position_words_eq_none_iff]
  apply toDouble_of_abs (P := fun _ x => x.position = none ↔ _)
  · intro _ x same
    rw [position_neg, Option.map_eq_none_iff, same]
  · rfl

/-- A sum of more than thirty-two words is infinite. -/
theorem Canonical.approximates_abs (canonical : a.Canonical) (number : a.toDouble.position ≠ none) :
    (sumOfWords 0 1 a.abs.words).Approximates a.toInt.natAbs := by
  rw [← wordsToNat_abs]
  rcases le_or_gt a.abs.words.length 32 with short | long
  · exact approximates_words short
  · rw [Ne, canonical.position_toDouble, ← canonical.zero_mem_drop_iff] at number
    obtain ⟨x, p, stands, sum⟩ := exists_sumOfWords_drop long.le
    rw [sum, sumOfWords_infinite stands (by simp [long]) number]
    apply approximates_infinite
    rw [wordsToNat_abs, Format.limit_le_units_iff (k := 32 * 32) rfl]
    exact canonical.lt_length_abs_iff.mp long

theorem faithful_toDouble (near : (sumOfWords 0 1 a.abs.words).Approximates a.toInt.natAbs) :
    Faithful a.toInt a.toDouble :=
  toDouble_of_abs (fun _ _ => Faithful.neg) near.faithful

theorem neg_infinite_sign {n : Int} (nonzero : n ≠ 0) :
    -(.infinite (n < 0) : Double) = .infinite (-n < 0) := by
  have signs : (!decide (n < 0)) = decide (-n < 0) := by
    rw [Bool.eq_iff_iff]
    simp
    omega
  exact congrArg Floating.infinite signs

theorem toDouble_eq_infinite (near : (sumOfWords 0 1 a.abs.words).Approximates a.toInt.natAbs)
    (large : 2 ^ 1024 ≤ a.toInt.natAbs) : a.toDouble = .infinite (a.toInt < 0) := by
  have nonzero : a.toInt ≠ 0 := Int.natAbs_pos.mp ((Nat.two_pow_pos _).trans_le large)
  refine toDouble_of_abs (P := fun n x => n ≠ 0 → x = .infinite (n < 0)) ?_ ?_ nonzero
  · intro n x infinite proper
    have proper' := neg_ne_zero.mp proper
    rw [infinite proper', neg_infinite_sign proper']
  · intro _
    rw [near.eq_infinite ((Format.limit_le_units_iff rfl).mpr large),
      decide_eq_false (Int.natCast_nonneg _).not_gt]

theorem Canonical.nearest_toDouble (canonical : a.Canonical) {j : Nat} (small : j < 32)
    (short : a.toInt.natAbs < 2 ^ (32 * (j + 1)))
    (exact : Format.double.OnGrid ((a.toInt.natAbs % 2 ^ (32 * j)) <<< Format.double.scale)) :
    Nearest a.toInt a.toDouble := by
  apply toDouble_of_abs (fun _ _ => Nearest.neg)
  rw [← wordsToNat_abs] at exact ⊢
  apply nearest_words small _ exact
  rw [← Nat.not_lt, canonical.lt_length_abs_iff]
  omega

theorem units_lt_of_onGrid {n : Nat} (onGrid : Format.double.OnGrid (n <<< Format.double.scale)) :
    n < 2 ^ (32 * 32) := by
  have inside := onGrid.1
  rwa [Nat.shiftLeft_eq, ← Nat.not_le, Format.limit_le_units_iff (k := 32 * 32) rfl,
    Nat.not_le] at inside

theorem Canonical.length_le (canonical : a.Canonical) (small : a.toInt.natAbs < 2 ^ (32 * 32)) :
    a.words.length ≤ 32 := by
  by_contra long
  exact absurd small (canonical.two_pow_le (Nat.lt_of_not_le long)).not_gt

/-- What a double can hold is exact. -/
theorem Canonical.value_toDouble (canonical : a.Canonical) {x : Double}
    (exact : x.value = some (a.toInt : ℚ)) : a.toDouble.value = some (a.toInt : ℚ) := by
  have onGrid := onGrid_of_value exact
  have short : a.abs.words.length ≤ 32 := by
    apply canonical.abs.length_le
    rw [toInt_abs, Int.natAbs_abs]
    exact units_lt_of_onGrid onGrid
  have sum := approximates_words short
  rw [wordsToNat_abs] at sum
  refine toDouble_of_abs (P := fun n x => x.value = some (n : ℚ)) ?_ (sum.isNat onGrid).value
  intro n x value
  rw [value_neg, value, Int.cast_neg]
  rfl

theorem toInt_ofDouble_of_value {x : Double} {n : Int} (exact : x.value = some (n : ℚ)) :
    (ofDouble x).toInt = n := by
  rw [toInt_ofDouble, toInt_eq_truncate exact, truncate]
  simp

theorem toDouble_ofDouble {x : Double} {n : Int} (exact : x.value = some (n : ℚ))
    (nonzero : n ≠ 0) : (ofDouble x).toDouble = x := by
  have integer := toInt_ofDouble_of_value exact
  have back := (canonical_ofDouble x).value_toDouble (by rwa [integer])
  rw [integer] at back
  exact eq_of_value back exact (by exact_mod_cast nonzero)

/-- The sign of a zero is lost. -/
theorem toBits_toDouble_ofDouble {x : Double} (exact : x.value = some ((0 : Int) : ℚ)) :
    (ofDouble x).toDouble.toBits = 0 := by
  have integer := toInt_ofDouble_of_value exact
  rw [(canonical_ofDouble x).eq_of_toInt (canonical_ofInt32 0) (integer.trans toInt_zero.symm)]
  decide

theorem value_ofBits_sign : (ofBits (2 ^ 63) : Double).value = some 0 := by
  rw [show (ofBits (2 ^ 63) : Double) = Floating.zero true from rfl]
  simp [Floating.zero, value]

theorem toBits_of_value_zero {x : Double} (exact : x.value = some ((0 : Int) : ℚ)) :
    x.toBits = 0 ∨ x.toBits = 2 ^ 63 := by
  cases x with
  | nan => cases exact
  | infinite => cases exact
  | finite s g onGrid =>
    obtain rfl := quanta_of_value_zero exact
    rw [toBits_zero]
    cases s with
    | false => exact .inl rfl
    | true => exact .inr rfl

end Doubles

/-- The double of an integer is not a number if a word past the thirty-second is zero.
Otherwise no double lies between it and the integer, and from `2 ^ 1024` on it is infinite.
It is the nearest double if the words below the last are exact, as they are up to 64 bits. -/
theorem toDouble_faithful_unless_zero_word {a : Integer} (canonical : a.Canonical) :
    (a.toDouble.position = none ↔
      ∃ i ≥ 32, 2 ^ (32 * i) ≤ a.toInt.natAbs ∧ a.toInt.natAbs / 2 ^ (32 * i) % 2 ^ 32 = 0) ∧
    (a.toDouble.position ≠ none → Faithful a.toInt a.toDouble ∧
      (2 ^ 1024 ≤ a.toInt.natAbs → a.toDouble = .infinite (a.toInt < 0))) ∧
    (∀ j < 32, a.toInt.natAbs < 2 ^ (32 * (j + 1)) →
      (∃ low : Double, low.value = some ((a.toInt.natAbs % 2 ^ (32 * j) : Nat) : ℚ)) →
      Nearest a.toInt a.toDouble) ∧
    (a.toInt.natAbs < 2 ^ 64 → Nearest a.toInt a.toDouble) := by
  refine ⟨canonical.position_toDouble, fun number => ?_, fun j small short low => ?_,
    fun short => ?_⟩
  · have near := canonical.approximates_abs number
    exact ⟨faithful_toDouble near, toDouble_eq_infinite near⟩
  · obtain ⟨low, exact⟩ := low
    exact canonical.nearest_toDouble small short (onGrid_of_value (n := (_ : Nat)) exact)
  · apply canonical.nearest_toDouble (j := 1) (by decide) short
    exact Format.onGrid_nat ((Nat.mod_lt _ (by decide)).le.trans (by decide))

/-- Just above the middle of two doubles. Its two low words are rounded down to the middle. -/
def aboveMiddle : Integer := ⟨[0x801, 0x80000000, 1], false⟩

theorem toDouble_faithful_above_middle :
    aboveMiddle.Canonical ∧ Faithful aboveMiddle.toInt aboveMiddle.toDouble := by
  have canonical : aboveMiddle.Canonical := by decide
  have number := (toDouble_faithful_unless_zero_word canonical).2.1
  exact ⟨canonical, (number (by decide +kernel)).1⟩

/-- A zero word past the thirty-second leaves no number, and two roundings can miss the
nearest double, already at 65 bits. -/
theorem toDouble_misses_nearest :
    (∃ a : Integer, a.Canonical ∧ a.toInt = 2 ^ (32 * 33) ∧ a.toDouble.position = none) ∧
    aboveMiddle.Canonical ∧ aboveMiddle.toInt = 2 ^ 64 + 2 ^ 63 + 2049 ∧
      ¬Nearest aboveMiddle.toInt aboveMiddle.toDouble := by
  constructor
  · have power (k : Nat) : toInt ⟨List.replicate k 0 ++ [1], false⟩ = 2 ^ (32 * k) := by
      rw [toInt_of_not_negative rfl, wordsToNat_append, wordsToNat_replicate_zero]
      simp [wordsToNat, Nat.shiftLeft_eq]
    exact ⟨⟨List.replicate 33 0 ++ [1], false⟩, by decide, power 33, by decide +kernel⟩
  · refine ⟨by decide, by decide, ?_⟩
    rintro ⟨p, position, others⟩
    have units : aboveMiddle.toInt * (2 : Int) ^ Format.double.scale =
        ((2 ^ 64 + 2 ^ 63 + 2049) <<< Format.double.scale : Nat) := by
      rw [Nat.shiftLeft_eq, Nat.cast_mul, Nat.cast_pow]
      rfl
    have below : aboveMiddle.toDouble.position =
        some (((2 ^ 64 + 2 ^ 63) <<< Format.double.scale : Nat) : Int) := by decide +kernel
    have above : (ofBits 0x43f8000000000001 : Double).position =
        some (((2 ^ 64 + 2 ^ 63 + 4096) <<< Format.double.scale : Nat) : Int) := by decide +kernel
    obtain rfl := Option.some.inj (below.symm.trans position)
    have farther := others _ _ above (by decide +kernel)
    rw [units] at farther
    revert farther
    decide +kernel

/-- A double whose value is an integer comes back from the integer with all its bits, unless
it is the negative zero. An integer that is the value of some double is converted exactly. -/
theorem integral_doubles_exact :
    (∀ bits < 2 ^ 64, ∀ n : Int, Format.double.rational bits = some (n : ℚ) →
      (ofDouble (.ofBits bits)).toDouble.toBits = if bits = 2 ^ 63 then 0 else bits) ∧
    ∀ a : Integer, a.Canonical → ∀ x : Double, x.value = some (a.toInt : ℚ) →
      a.words.length ≤ 32 ∧ a.toDouble.value = some (a.toInt : ℚ) := by
  constructor
  · intro bits inside n exact
    have same : (ofBits bits : Double).toBits = bits := toBits_ofBits inside
    rw [← value_ofBits] at exact
    by_cases zero : n = 0
    · subst zero
      have either := toBits_of_value_zero exact
      rw [same] at either
      rw [toBits_toDouble_ofDouble exact]
      split <;> omega
    · rw [toDouble_ofDouble exact zero, same, if_neg]
      rintro rfl
      rw [value_ofBits_sign] at exact
      exact zero (by exact_mod_cast (Option.some.inj exact).symm)
  · intro a canonical x exact
    exact ⟨canonical.length_le (units_lt_of_onGrid (onGrid_of_value exact)),
      canonical.value_toDouble exact⟩

theorem integral_doubles_exact_minus_three :
    Format.double.rational 0xC008000000000000 = some ((-3 : Int) : ℚ) ∧
      (ofDouble (.ofBits 0xC008000000000000)).toDouble.toBits = 0xC008000000000000 := by
  have exact : Format.double.rational 0xC008000000000000 = some ((-3 : Int) : ℚ) := by
    have sign : Nat.testBit 0xC008000000000000 63 = true := by decide
    have field : 0xC008000000000000 >>> 52 % 2048 = 1024 := by decide
    norm_num [Format.rational, Format.bias, Format.double, sign, field]
  exact ⟨exact, integral_doubles_exact.1 _ (by decide) _ exact⟩

end Integer

end CallByNeed
