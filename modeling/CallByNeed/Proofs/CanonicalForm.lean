import CallByNeed.Integer.Numeral
import CallByNeed.Json.Wire

set_option autoImplicit false

/-!
Every integer has one canonical form.

Order and equality of word lists are those of the numbers that they denote,
canonical or not. Canonical integers that denote the same number have the same
words and the same sign. Whatever is made by the constructors and operations, in
any composition, is canonical.
-/

namespace CallByNeed

/-! Words of one length -/

theorem compare_word (a b : UInt32) : compare a b = compare a.toNat b.toNat := by
  simp only [compare, compareOfLessAndEq, UInt32.lt_iff_toNat_lt, ← UInt32.toNat_inj]

theorem compareWords_eq {as bs : List UInt32} (lengths : as.length = bs.length) :
    Integer.compareWords as bs = compare (wordsToNat as) (wordsToNat bs) := by
  induction as generalizing bs with
  | nil =>
    cases bs with
    | nil => rfl
    | cons => cases lengths
  | cons a as ih =>
    cases bs with
    | nil => cases lengths
    | cons b bs =>
      have low := a.toNat_lt
      have low' := b.toNat_lt
      rw [Integer.compareWords, ih (Nat.succ.inj lengths), wordsToNat, wordsToNat]
      rcases Nat.lt_trichotomy (wordsToNat as) (wordsToNat bs) with less | same | more
      · rw [Nat.compare_eq_lt.mpr less, Nat.compare_eq_lt.mpr (by omega)]
        rfl
      · rw [same, Nat.compare_eq_eq.mpr rfl, compare_word]
        simp only [Ordering.then, compare, compareOfLessAndEq, Nat.add_lt_add_iff_right,
          Nat.add_right_cancel_iff]
      · rw [Nat.compare_eq_gt.mpr more, Nat.compare_eq_gt.mpr (by omega)]
        rfl

theorem wordsToNat_injective {as bs : List UInt32} (lengths : as.length = bs.length)
    (same : wordsToNat as = wordsToNat bs) : as = bs := by
  induction as generalizing bs with
  | nil =>
    cases bs with
    | nil => rfl
    | cons => cases lengths
  | cons a as ih =>
    cases bs with
    | nil => cases lengths
    | cons b bs =>
      have low := a.toNat_lt
      have low' := b.toNat_lt
      rw [wordsToNat, wordsToNat] at same
      have heads : a = b := UInt32.toNat_inj.mp (by omega)
      rw [heads, ih (Nat.succ.inj lengths) (by omega)]

namespace Integer

variable {a b : Integer}

/-! Signs, order and equality -/

theorem toInt_lt_zero_iff (a : Integer) : a.toInt < 0 ↔ a.negative = true := by
  have bound := wordsToNat_lt a.words
  unfold toInt denote
  cases a.negative with
  | false => simp
  | true =>
    simp only [if_true, iff_true]
    omega

theorem length_padded_width (a b : Integer) :
    (a.padded (width a b)).length = (b.padded (width a b)).length := by
  rw [width, a.length_padded (Nat.le_max_left _ _), b.length_padded (Nat.le_max_right _ _)]

/-- Integers of one sign differ as their words do, once these have one length. -/
theorem toInt_sub_toInt (signs : a.negative = b.negative) :
    a.toInt - b.toInt =
      (wordsToNat (a.padded (width a b)) : Int) - wordsToNat (b.padded (width a b)) := by
  rw [← a.denote_padded (width a b), ← b.denote_padded (width a b), denote, denote,
    length_padded_width a b, signs]
  omega

theorem compare_eq (a b : Integer) : compare a b = compare a.toInt b.toInt := by
  show Integer.compare a b = _
  have sign := a.toInt_lt_zero_iff
  have sign' := b.toInt_lt_zero_iff
  have sameSign (signs : a.negative = b.negative) :
      compareWords (a.padded (width a b)) (b.padded (width a b)) = compare a.toInt b.toInt := by
    have difference := toInt_sub_toInt signs
    have less : a.toInt < b.toInt ↔
        wordsToNat (a.padded (width a b)) < wordsToNat (b.padded (width a b)) := by omega
    have same : a.toInt = b.toInt ↔
        wordsToNat (a.padded (width a b)) = wordsToNat (b.padded (width a b)) := by omega
    rw [compareWords_eq (length_padded_width a b)]
    simp only [compare, compareOfLessAndEq, less, same]
  unfold Integer.compare
  split
  · next negative positive =>
    rw [negative] at sign
    rw [positive] at sign'
    exact (Int.compare_eq_lt.mpr (by simp at sign sign'; omega)).symm
  · next positive negative =>
    rw [positive] at sign
    rw [negative] at sign'
    exact (Int.compare_eq_gt.mpr (by simp at sign sign'; omega)).symm
  · next notLess notGreater =>
    apply sameSign
    cases first : a.negative <;> cases second : b.negative <;> simp_all

@[simp] theorem equal_iff (a b : Integer) : a.equal b = true ↔ a.toInt = b.toInt := by
  simp only [equal, Bool.and_eq_true, beq_iff_eq]
  constructor
  · rintro ⟨signs, words⟩
    have difference := toInt_sub_toInt signs
    rw [words] at difference
    omega
  · intro same
    have signs : a.negative = b.negative := by
      rw [Bool.eq_iff_iff, ← toInt_lt_zero_iff, ← toInt_lt_zero_iff, same]
    refine ⟨signs, wordsToNat_injective (length_padded_width a b) ?_⟩
    have difference := toInt_sub_toInt signs
    omega

/-! Canonical integers -/

@[simp] theorem trim_append_fill (fill : UInt32) (ws : List UInt32) (n : Nat) :
    trim fill (ws ++ List.replicate n fill) = trim fill ws := by
  induction ws with
  | nil =>
    induction n with
    | zero => rfl
    | succ n ih =>
      rw [List.nil_append, List.replicate_succ, trim]
      simp only [List.nil_append] at ih
      simp [ih, trim]
  | cons w ws ih => rw [List.cons_append, trim, trim, ih]

theorem trim_of_getLast? {fill : UInt32} {ws : List UInt32} (h : ws.getLast? ≠ some fill) :
    trim fill ws = ws := by
  obtain ⟨n, split⟩ := exists_trim_append fill ws
  cases n with
  | zero => simpa using split.symm
  | succ n =>
    refine absurd ?_ h
    rw [split, List.replicate_succ', ← List.append_assoc, List.getLast?_concat]

/-- Padding does not change what trimming leaves. -/
theorem Canonical.trim_padded (canonical : a.Canonical) (n : Nat) :
    trim a.fill (a.padded n) = a.words := by
  rw [padded, trim_append_fill, trim_of_getLast? canonical]

theorem Canonical.eq_of_toInt (canonical : a.Canonical) (canonical' : b.Canonical)
    (same : a.toInt = b.toInt) : a = b := by
  have equal := (equal_iff a b).mpr same
  simp only [Integer.equal, Bool.and_eq_true, beq_iff_eq] at equal
  obtain ⟨signs, words⟩ := equal
  have fills : a.fill = b.fill := by rw [fill, fill, signs]
  have sameWords : a.words = b.words := by
    rw [← canonical.trim_padded (width a b), ← canonical'.trim_padded (width a b), words, fills]
  cases a
  cases b
  simp_all

/-! Constructors and operations -/

@[simp] theorem canonical_ofInt32 (n : Int32) : (ofInt32 n).Canonical := canonical_make _ _

@[simp] theorem canonical_add (a b : Integer) : (a + b).Canonical := canonical_make _ _

@[simp] theorem canonical_neg (a : Integer) : (-a).Canonical := canonical_add _ _

@[simp] theorem canonical_sub (a b : Integer) : (a - b).Canonical := canonical_add _ _

@[simp] theorem canonical_ofInt64 (n : Int64) : (ofInt64 n).Canonical := by
  unfold ofInt64
  split
  · exact canonical_ofInt32 _
  · exact canonical_make _ _

@[simp] theorem canonical_ofDouble (x : Double) : (ofDouble x).Canonical := by
  unfold ofDouble
  split
  · exact canonical_ofInt32 0
  · split
    · exact canonical_neg _
    · exact canonical_make _ _

@[simp] theorem canonical_decodeDouble (x : Double) : (decodeDouble x).1.Canonical := by
  unfold decodeDouble
  dsimp only
  split
  · exact canonical_neg _
  · exact canonical_make _ _

@[simp] theorem canonical_signum (a : Integer) : a.signum.Canonical := by
  unfold signum
  split <;> exact canonical_ofInt32 _

theorem Canonical.abs (canonical : a.Canonical) : a.abs.Canonical := by
  unfold Integer.abs
  split
  · exact canonical_neg _
  · exact canonical

@[simp] theorem canonical_shiftLeft (a : Integer) (bits : Nat) : (a.shiftLeft bits).Canonical := by
  unfold shiftLeft
  dsimp only
  split <;> exact canonical_make _ _

@[simp]
theorem canonical_shiftRight (a : Integer) (bits : Nat) : (a.shiftRight bits).Canonical := by
  unfold shiftRight
  dsimp only
  split <;> exact canonical_make _ _

@[simp] theorem canonical_shorten (a : Integer) (bits : Nat) : (a.shorten bits).Canonical := by
  unfold shorten
  split
  · exact canonical_ofInt32 0
  · dsimp only
    split <;> exact canonical_make _ _

@[simp] theorem canonical_mulPositive (a b : Integer) : (mulPositive a b).Canonical := by
  unfold mulPositive
  split
  · exact canonical_ofDouble _
  · exact canonical_make _ _

@[simp] theorem canonical_mul (a b : Integer) : (a * b).Canonical := by
  show (Integer.mul a b).Canonical
  unfold Integer.mul
  split
  · exact canonical_ofInt32 0
  · split
    · exact canonical_mulPositive _ _
    · exact canonical_neg _
    · exact canonical_neg _
    · exact canonical_mulPositive _ _

theorem Canonical.quotientRounds (divisor : Integer) (fuel : Nat) {quotient remainder : Integer}
    (canonical : quotient.Canonical) :
    (quotientRounds divisor fuel quotient remainder).Canonical := by
  induction fuel generalizing quotient remainder with
  | zero => exact canonical
  | succ fuel ih =>
    unfold Integer.quotientRounds
    split
    · exact canonical
    · exact ih (canonical_add _ _)

@[simp] theorem canonical_quotPositive (a b : Integer) : (quotPositive a b).Canonical :=
  (canonical_ofInt32 0).quotientRounds _ _

theorem canonical_quot {q : Integer} (found : a.quot b = .ok q) : q.Canonical := by
  unfold quot at found
  split at found
  · cases found
  · split at found
    · cases found
      exact canonical_ofInt32 0
    · split at found <;> cases found
      · exact canonical_quotPositive _ _
      · exact canonical_neg _
      · exact canonical_neg _
      · exact canonical_quotPositive _ _

theorem exists_ok_of_map {α : Type} {x : Except Error α} {f : α → Integer} {result : Integer}
    (found : (do return f (← x)) = Except.ok result) :
    ∃ value, x = .ok value ∧ f value = result := by
  cases x with
  | error e => cases found
  | ok value => exact ⟨value, rfl, Except.ok.inj found⟩

theorem canonical_quotRem {q r : Integer} (found : a.quotRem b = .ok (q, r)) :
    q.Canonical ∧ r.Canonical := by
  cases first : a.quot b with
  | error e => simp [quotRem, first, bind, Except.bind] at found
  | ok quotient =>
    simp only [quotRem, first, bind, Except.bind, pure, Except.pure, Except.ok.injEq, Prod.mk.injEq]
      at found
    obtain ⟨rfl, rfl⟩ := found
    exact ⟨canonical_quot first, canonical_sub _ _⟩

theorem canonical_divMod {q r : Integer} (found : a.divMod b = .ok (q, r)) :
    q.Canonical ∧ r.Canonical := by
  cases first : a.quotRem b with
  | error e => simp [divMod, first, bind, Except.bind] at found
  | ok pair =>
    simp only [divMod, first, bind, Except.bind, pure, Except.pure] at found
    split at found <;> cases found
    · exact ⟨canonical_sub _ _, canonical_add _ _⟩
    · exact canonical_quotRem first

theorem canonical_ofDigits (radix : Nat) {result : Integer} (canonical : result.Canonical)
    (group : Group) (digits : List Nat) : (ofDigits radix result group digits).Canonical := by
  fun_induction ofDigits radix result group digits with
  | case1 result group empty => exact canonical
  | case2 result group => exact canonical_add _ _
  | case3 result group digit digits next full ih => exact ih (canonical_add _ _)
  | case4 result group digit digits next full ih => exact ih canonical

theorem canonical_parse {text : String} {radix : UInt32} {a : Integer}
    (found : parse text radix = .ok a) : a.Canonical := by
  simp only [parse, bind, Except.bind, pure, Except.pure, throw, throwThe, MonadExceptOf.throw]
    at found
  generalize (text.toList.head? == some '-') = negative at found
  generalize (if negative = true then text.toList.tail else text.toList) = digits at found
  -- The text may be refused in four places before its digits are read.
  split at found
  · cases found
  split at found
  · cases found
  split at found
  · cases found
  split at found
  · cases found
  split at found
  · cases found
  · cases found
    split
    · exact canonical_neg _
    · exact canonical_ofDigits _ (canonical_ofInt32 0) _ _

/-- What the constructors and operations make, in any composition. -/
inductive Obtainable : Integer → Prop where
  | zero : Obtainable zero
  | one : Obtainable one
  | ofInt32 (n : Int32) : Obtainable (ofInt32 n)
  | ofUInt32 (n : UInt32) : Obtainable (ofUInt32 n)
  | ofInt64 (n : Int64) : Obtainable (ofInt64 n)
  | ofUInt64 (n : UInt64) : Obtainable (ofUInt64 n)
  | ofWords (words : List UInt32) : Obtainable (ofWords words)
  | ofDouble (x : Double) : Obtainable (ofDouble x)
  | ofLong (x : Long) : Obtainable (ofLong x)
  | ofULong (x : ULong) : Obtainable (ofULong x)
  | decodeDouble (x : Double) : Obtainable (decodeDouble x).1
  | parse {text : String} {radix : UInt32} {a : Integer} :
      parse text radix = .ok a → Obtainable a
  | ofWire (words : List Int32) (sign : Int32) : Obtainable (ofWire words sign)
  | add {a b : Integer} : Obtainable a → Obtainable b → Obtainable (a + b)
  | sub {a b : Integer} : Obtainable a → Obtainable b → Obtainable (a - b)
  | mul {a b : Integer} : Obtainable a → Obtainable b → Obtainable (a * b)
  | neg {a : Integer} : Obtainable a → Obtainable (-a)
  | abs {a : Integer} : Obtainable a → Obtainable a.abs
  | signum {a : Integer} : Obtainable a → Obtainable a.signum
  | complement {a : Integer} : Obtainable a → Obtainable a.complement
  | and {a b : Integer} : Obtainable a → Obtainable b → Obtainable (a.and b)
  | or {a b : Integer} : Obtainable a → Obtainable b → Obtainable (a.or b)
  | xor {a b : Integer} : Obtainable a → Obtainable b → Obtainable (a.xor b)
  | shiftLeft {a : Integer} (bits : Nat) : Obtainable a → Obtainable (a.shiftLeft bits)
  | shiftRight {a : Integer} (bits : Nat) : Obtainable a → Obtainable (a.shiftRight bits)
  | shorten {a : Integer} (bits : Nat) : Obtainable a → Obtainable (a.shorten bits)
  | quot {a b q : Integer} : Obtainable a → Obtainable b → a.quot b = .ok q → Obtainable q
  | rem {a b r : Integer} : Obtainable a → Obtainable b → a.rem b = .ok r → Obtainable r
  | div {a b q : Integer} : Obtainable a → Obtainable b → a.div b = .ok q → Obtainable q
  | mod {a b r : Integer} : Obtainable a → Obtainable b → a.mod b = .ok r → Obtainable r

theorem Obtainable.canonical {a : Integer} (obtained : Obtainable a) : a.Canonical := by
  induction obtained with
  | zero => exact canonical_ofInt32 0
  | one => exact canonical_ofInt32 1
  | ofInt32 n => exact canonical_ofInt32 n
  | ofInt64 n => exact canonical_ofInt64 n
  | ofDouble x => exact canonical_ofDouble x
  | decodeDouble x => exact canonical_decodeDouble x
  | parse found => exact canonical_parse found
  | add => exact canonical_add _ _
  | sub => exact canonical_sub _ _
  | mul => exact canonical_mul _ _
  | neg => exact canonical_neg _
  | abs _ canonical => exact canonical.abs
  | signum => exact canonical_signum _
  | shiftLeft bits => exact canonical_shiftLeft _ bits
  | shiftRight bits => exact canonical_shiftRight _ bits
  | shorten bits => exact canonical_shorten _ bits
  | quot _ _ found => exact canonical_quot found
  | rem _ _ found =>
    obtain ⟨pair, both, rfl⟩ := exists_ok_of_map found
    exact (canonical_quotRem both).2
  | div _ _ found =>
    obtain ⟨pair, both, rfl⟩ := exists_ok_of_map found
    exact (canonical_divMod both).1
  | mod _ _ found =>
    obtain ⟨pair, both, rfl⟩ := exists_ok_of_map found
    exact (canonical_divMod both).2
  | ofUInt32 | ofUInt64 | ofWords | ofLong | ofULong | ofWire | complement | and | or | xor =>
    exact canonical_make _ _

theorem fillWord_injective {first second : Bool} (same : fillWord first = fillWord second) :
    first = second := by
  revert first second
  decide

/-- Integers that can be obtained are canonical. For any two of them the four ways to be
the same coincide, and their order is that of the numbers they denote. -/
theorem obtainable_canonical_form {a b : Integer} (obtained : Obtainable a)
    (obtained' : Obtainable b) :
    (a.fill = 0 ∨ a.fill = 0xFFFFFFFF) ∧ a.Canonical ∧
    (a.equal b = true ↔ compare a b = .eq) ∧
    (compare a b = .eq ↔ a.words = b.words ∧ a.fill = b.fill) ∧
    (a.words = b.words ∧ a.fill = b.fill ↔ a.toInt = b.toInt) ∧
    compare a b = compare a.toInt b.toInt := by
  have ordered : compare a b = .eq ↔ a.toInt = b.toInt := by
    rw [compare_eq, Int.compare_eq_eq]
  have stored : a.words = b.words ∧ a.fill = b.fill ↔ a.toInt = b.toInt := by
    constructor
    · rintro ⟨words, fills⟩
      rw [toInt, toInt, words, fillWord_injective fills]
    · intro same
      cases obtained.canonical.eq_of_toInt obtained'.canonical same
      exact ⟨rfl, rfl⟩
  refine ⟨?_, obtained.canonical, ?_, ordered.trans stored.symm, stored, compare_eq a b⟩
  · cases sign : a.negative with
    | false => exact .inl (by rw [fill, sign]; rfl)
    | true => exact .inr (by rw [fill, sign]; rfl)
  · exact (equal_iff a b).trans ordered.symm

/-- Minus one, read with words that its canonical form does not have, and as a negation. -/
theorem obtainable_canonical_form_minus_one :
    Obtainable (ofWire [-1, -1] (-1)) ∧ Obtainable (-ofUInt32 1) ∧
    (ofWire [-1, -1] (-1)).Canonical ∧ (ofWire [-1, -1] (-1)).toInt = (-ofUInt32 1).toInt ∧
    (ofWire [-1, -1] (-1)).equal (-ofUInt32 1) = true ∧
    compare (ofWire [-1, -1] (-1)) (-ofUInt32 1) = .eq := by
  have first : Obtainable (ofWire [-1, -1] (-1)) := .ofWire _ _
  have second : Obtainable (-ofUInt32 1) := .neg (.ofUInt32 1)
  obtain ⟨-, canonical, equal, ordered, stored, -⟩ := obtainable_canonical_form first second
  have same : (ofWire [-1, -1] (-1)).words = (-ofUInt32 1).words ∧
      (ofWire [-1, -1] (-1)).fill = (-ofUInt32 1).fill := by decide
  exact ⟨first, second, canonical, stored.mp same, equal.mpr (ordered.mpr same), ordered.mpr same⟩

end Integer

end CallByNeed
