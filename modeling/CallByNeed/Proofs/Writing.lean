import CallByNeed.Proofs.Quotient
import CallByNeed.Proofs.Reading
import Mathlib.Data.Nat.Digits.Lemmas

set_option autoImplicit false

/-!
Writing numerals.

A numeral is written in groups of six digits. The first group is not zero and has no
zeros in front, and the others are filled up with them. So these are the digits of the
number, reading gives the number back, and writing what was read gives the text again,
up to the case of its letters, its leading zeros and the sign of a zero.
-/

namespace CallByNeed.Integer

/-! Digits -/

theorem getElem?_alphabet {value : Nat} (small : value < 36) :
    alphabet[value]? = some (digitChar value) := by
  revert value
  decide

theorem digitChar_eq_zero_iff {value : Nat} (small : value < 36) :
    digitChar value = '0' ↔ value = 0 := by
  revert value
  decide

theorem ofDigits_dropWhile_zero (radix : Nat) (values : List Nat) :
    Nat.ofDigits radix (values.dropWhile (· = 0)).reverse = Nat.ofDigits radix values.reverse := by
  induction values with
  | nil => rfl
  | cons value values ih =>
    by_cases zero : value = 0
    · rw [List.dropWhile_cons_of_pos (by simpa using zero), ih, zero, List.reverse_cons,
        Nat.ofDigits_append_zero]
    · rw [List.dropWhile_cons_of_neg (by simpa using zero)]

/-- Digits without the zeros in front of them are those of the number they stand for. -/
theorem dropWhile_zero_eq_digits {radix : Nat} (range : 2 ≤ radix) {values : List Nat}
    (small : ∀ value ∈ values, value < radix) :
    values.dropWhile (· = 0) = (Nat.digits radix (Nat.ofDigits radix values.reverse)).reverse := by
  rw [← ofDigits_dropWhile_zero, Nat.digits_ofDigits radix (by omega), List.reverse_reverse]
  · intro value member
    exact small value ((List.dropWhile_sublist _).subset (List.mem_reverse.mp member))
  · intro nonempty
    rw [List.getLast_reverse]
    simpa using List.head_dropWhile_not (fun value : Nat => decide (value = 0))
      (by simpa using nonempty)

/-- The digits of a number as they are written, the most significant first. -/
def magnitude (radix n : Nat) : List Nat :=
  if n = 0 then [0] else (Nat.digits radix n).reverse

variable {radix : Nat}

theorem magnitude_lt (range : 2 ≤ radix) (n : Nat) : ∀ value ∈ magnitude radix n, value < radix := by
  intro value member
  unfold magnitude at member
  split at member
  · rw [List.mem_singleton] at member
    omega
  · exact Nat.digits_lt_base (by omega) (List.mem_reverse.mp member)

@[simp]
theorem ofDigits_magnitude (radix n : Nat) : Nat.ofDigits radix (magnitude radix n).reverse = n := by
  unfold magnitude
  split
  case isTrue zero => simp [zero]
  case isFalse => rw [List.reverse_reverse, Nat.ofDigits_digits]

theorem magnitude_ne_nil (radix n : Nat) : magnitude radix n ≠ [] := by
  unfold magnitude
  split
  case isTrue => exact List.cons_ne_nil _ _
  case isFalse nonzero => simpa [Nat.digits_eq_nil_iff_eq_zero] using nonzero

theorem magnitude_of_head? {n : Nat} (head : (magnitude radix n).head? = some 0) :
    magnitude radix n = [0] := by
  unfold magnitude at head ⊢
  split at head
  case isTrue zero => rw [if_pos zero]
  case isFalse nonzero =>
    rw [List.head?_reverse,
      List.getLast?_eq_some_getLast (Nat.digits_ne_nil_iff_ne_zero.mpr nonzero)] at head
    exact absurd (Option.some.inj head) (Nat.getLast_digit_ne_zero radix nonzero)

theorem dropWhile_digitChar {values : List Nat} (small : ∀ value ∈ values, value < 36) :
    (values.map digitChar).dropWhile (· = '0') = (values.dropWhile (· = 0)).map digitChar := by
  induction values with
  | nil => rfl
  | cons value values ih =>
    have zero := digitChar_eq_zero_iff (small value (by simp))
    specialize ih fun v member => small v (by simp [member])
    rw [List.map_cons]
    by_cases isZero : value = 0
    · rw [List.dropWhile_cons_of_pos (by simpa using zero.mpr isZero),
        List.dropWhile_cons_of_pos (by simpa using isZero), ih]
    · rw [List.dropWhile_cons_of_neg (by simpa using mt zero.mp isZero),
        List.dropWhile_cons_of_neg (by simpa using isZero), List.map_cons]

/-! Groups -/

theorem digitsOf_eq (range : 2 ≤ radix) {fuel n : Nat} (small : n < 2 ^ fuel) :
    digitsOf radix fuel n = (Nat.digits radix n).map digitChar := by
  induction fuel generalizing n with
  | zero =>
    obtain rfl : n = 0 := by simpa using small
    simp [digitsOf]
  | succ fuel ih =>
    rw [digitsOf]
    split
    case isTrue zero => simp [zero]
    case isFalse nonzero =>
      have smaller : n / radix < 2 ^ fuel := by
        apply Nat.div_lt_of_lt_mul
        rw [pow_succ'] at small
        exact small.trans_le (Nat.mul_le_mul_right _ range)
      rw [ih smaller, Nat.digits_def' range (Nat.pos_of_ne_zero nonzero), List.map_cons]

/-- A group that is not zero is written without zeros in front. -/
theorem writeGroup_top (range : 2 ≤ radix) {group : UInt32} (nonzero : group.toNat ≠ 0) :
    writeGroup radix 0 group = (Nat.digits radix group.toNat).reverse.map digitChar := by
  have some : 0 < (Nat.digits radix group.toNat).length :=
    List.length_pos_iff.mpr (Nat.digits_ne_nil_iff_ne_zero.mpr nonzero)
  rw [writeGroup, digitsOf_eq range group.toNat_lt, List.length_map, Nat.max_eq_right (by decide),
    Nat.sub_eq_zero_of_le some, List.replicate_zero, List.append_nil, List.map_reverse]

theorem writeGroup_filled (range : 2 ≤ radix) (group : UInt32) :
    writeGroup radix groupDigits group = (Nat.digits radix group.toNat ++
      List.replicate (groupDigits - (Nat.digits radix group.toNat).length) 0).reverse.map
        digitChar := by
  rw [writeGroup, digitsOf_eq range group.toNat_lt, List.length_map, Nat.max_eq_left (by decide),
    List.map_reverse, List.map_append, List.map_replicate]
  rfl

theorem writeGroups_concat (radix : Nat) {gs : List UInt32} (nonempty : gs ≠ []) (g : UInt32) :
    writeGroups radix (gs ++ [g]) = writeGroups radix gs ++ writeGroup radix groupDigits g := by
  cases gs with
  | nil => contradiction
  | cons top rest => simp [writeGroups]

/-- The digits of a number are those of its remainder, filled up with zeros, and those of its
quotient. -/
theorem digits_div_pow (range : 2 ≤ radix) {k n : Nat} (large : n / radix ^ k ≠ 0) :
    Nat.digits radix n = Nat.digits radix (n % radix ^ k) ++
      List.replicate (k - (Nat.digits radix (n % radix ^ k)).length) 0 ++
        Nat.digits radix (n / radix ^ k) := by
  have short : (Nat.digits radix (n % radix ^ k)).length ≤ k :=
    (Nat.digits_length_le_iff (by omega) _).mpr (Nat.mod_lt _ (by positivity))
  rw [Nat.digits_append_zeroes_append_digits range (Nat.pos_of_ne_zero large),
    Nat.add_sub_cancel' short, Nat.mod_add_div]

/-- The groups of a number, written out, are its digits. -/
theorem writeGroups_eq (range : 2 ≤ radix) {gs : List UInt32} {n : Nat} (positive : 0 < n)
    (digits : gs.map UInt32.toNat = Nat.digits (radix ^ groupDigits) n) :
    writeGroups radix gs.reverse = (Nat.digits radix n).reverse.map digitChar := by
  have power : 1 < radix ^ groupDigits := Nat.one_lt_pow (by decide) (by omega)
  induction gs generalizing n with
  | nil => exact absurd digits.symm (Nat.digits_ne_nil_iff_ne_zero.mpr positive.ne')
  | cons g gs ih =>
    rw [Nat.digits_def' power positive, List.map_cons, List.cons.injEq] at digits
    obtain ⟨first, digits⟩ := digits
    by_cases small : n / radix ^ groupDigits = 0
    · have same : g.toNat = n := by
        rw [first, Nat.mod_eq_of_lt ((Nat.div_eq_zero_iff_lt (by omega)).mp small)]
      obtain rfl : gs = [] := by simpa [small] using digits
      rw [← same, ← writeGroup_top range (by omega)]
      simp [writeGroups]
    · have more : gs.reverse ≠ [] := by
        rintro none
        rw [List.reverse_eq_nil_iff.mp none] at digits
        exact small (Nat.digits_eq_nil_iff_eq_zero.mp digits.symm)
      rw [List.reverse_cons, writeGroups_concat radix more, ih (Nat.pos_of_ne_zero small) digits,
        writeGroup_filled range, first, digits_div_pow range small, ← List.map_append,
        ← List.reverse_append]

section Division

variable {power a : Integer} {p n : Nat} (canonical : power.Canonical) (isPower : power.toInt = p)
  (range : 2 ≤ p ∧ p ≤ 2 ^ 32)
include canonical isPower range

theorem toInt_quotPositive_power (canonical' : a.Canonical) (value : a.toInt = n) :
    (quotPositive a power).toInt = (n / p : Nat) := by
  rw [toInt_quotPositive canonical' canonical (by omega) (by omega), value, isPower]
  rfl

/-- The rest is below the power and so has one word. -/
theorem wordAt_rest (canonical' : a.Canonical) (value : a.toInt = n) :
    ((a - quotPositive a power * power).wordAt 0).toNat = n % p := by
  have quotient := toInt_quotPositive_power canonical isPower range canonical' value
  have rest : (a - quotPositive a power * power).toInt = (n % p : Nat) := by
    rw [toInt_sub, toInt_mul, quotient, isPower, value]
    have := Nat.div_add_mod' n p
    omega
  have small : n % p < p := Nat.mod_lt _ (by omega)
  have word := Word.toNat_ofInt ((n % p : Nat) / 2 ^ (32 * 0))
  rw [wordAt_eq, rest]
  omega

/-- The groups are the digits of the number for a power of the radix. -/
theorem groups_eq_digits {fuel : Nat} (canonical' : a.Canonical) (value : a.toInt = n)
    (positive : 0 < n) (high : n < 2 ^ fuel) :
    (groups power fuel a).map UInt32.toNat = Nat.digits p n := by
  induction fuel generalizing a n with
  | zero => omega
  | succ fuel ih =>
    have quotient := toInt_quotPositive_power canonical isPower range canonical' value
    have isZero := (canonical_quotPositive a power).isZero_iff
    rw [quotient] at isZero
    rw [groups, Nat.digits_def' (by omega) positive]
    by_cases zero : n / p = 0
    · rw [if_pos (isZero.mpr (by exact_mod_cast zero)), zero, Nat.digits_zero, List.map_singleton,
        wordAt_rest canonical isPower range canonical' value]
    · have smaller : n / p < 2 ^ fuel := by
        rw [pow_succ] at high
        exact Nat.div_lt_of_lt_mul (by nlinarith)
      rw [if_neg (mt isZero.mp (by exact_mod_cast zero)), List.map_cons,
        wordAt_rest canonical isPower range canonical' value,
        ih (canonical_quotPositive a power) quotient (Nat.pos_of_ne_zero zero) smaller]

end Division

theorem groupPower_bounds {radix : Nat} (range : 2 ≤ radix ∧ radix ≤ 36) :
    2 ≤ radix ^ groupDigits ∧ radix ^ groupDigits < 2 ^ 32 := by
  have low : 2 ^ groupDigits ≤ radix ^ groupDigits := Nat.pow_le_pow_left range.1 _
  have high : radix ^ groupDigits ≤ 36 ^ groupDigits := Nat.pow_le_pow_left range.2 _
  norm_num [groupDigits] at low high ⊢
  omega

theorem toList_writePositive {radix : UInt32} {a : Integer} {n : Nat} (range : IsRadix radix)
    (canonical : a.Canonical) (value : a.toInt = n) (positive : 0 < n) :
    (writePositive radix a).toList = (magnitude radix.toNat n).map digitChar := by
  have bounds := groupPower_bounds range
  have canonicalPower : (ofUInt32 (UInt32.ofNat (Nat.pow radix.toNat groupDigits))).Canonical :=
    canonical_make _ _
  have power : (ofUInt32 (UInt32.ofNat (Nat.pow radix.toNat groupDigits))).toInt =
      (radix.toNat ^ groupDigits : Nat) := by
    rw [toInt_ofUInt32, UInt32.toNat_ofNat']
    exact congrArg Nat.cast (Nat.mod_eq_of_lt bounds.2)
  obtain ⟨_, -, -, below, -⟩ := canonical.bitLength_spec (by omega)
  have fuel : n < 2 ^ (a.bitLength + 1) := by
    rw [value] at below
    calc n < 2 ^ a.bitLength := by exact_mod_cast below
      _ ≤ 2 ^ (a.bitLength + 1) := Nat.pow_le_pow_right (by decide) (by omega)
  have digits := groups_eq_digits canonicalPower power ⟨bounds.1, bounds.2.le⟩ canonical value
    positive fuel
  rw [writePositive, String.toList_ofList, writeGroups_eq range.1 positive digits, magnitude,
    if_neg (by omega)]

/-- A negative number has the numeral of its opposite after a minus sign. -/
theorem toList_write {radix : UInt32} {a : Integer} (range : IsRadix radix)
    (canonical : a.Canonical) :
    (write radix a).toList =
      signText (a.toInt < 0) ++ (magnitude radix.toNat a.toInt.natAbs).map digitChar := by
  rw [write]
  split
  case isTrue zero =>
    rw [canonical.isZero_iff] at zero
    rw [zero]
    rfl
  case isFalse nonzero =>
    rw [canonical.isZero_iff] at nonzero
    split
    case isTrue negative =>
      rw [← toInt_lt_zero_iff] at negative
      have value : (-a).toInt = a.toInt.natAbs := by
        rw [toInt_neg]
        omega
      rw [String.toList_append, toList_writePositive range (canonical_neg a) value (by omega),
        decide_eq_true negative]
      rfl
    case isFalse positive =>
      rw [← toInt_lt_zero_iff] at positive
      have value : a.toInt = a.toInt.natAbs := by omega
      rw [toList_writePositive range canonical value (by omega), decide_eq_false positive]
      rfl

/-! Numerals -/

/-- The text is the numeral of `n`: lower-case digits, the most significant first, with no
zero in front of another digit, and a minus sign before them if `n` is negative. -/
def IsNumeral (radix : Nat) (n : Int) (text : String) : Prop :=
  ∃ digits values, text.toList = signText (n < 0) ++ digits ∧
    List.Forall₂ (fun c value => value < radix ∧ alphabet[value]? = some c) digits values ∧
    Nat.ofDigits radix values.reverse = n.natAbs ∧
    digits ≠ [] ∧ (digits.head? = some '0' → digits = ['0'])

/-- The text with lower-case letters and without leading zeros; a zero has one digit and no
sign. -/
def normalized (text : String) : String :=
  let negative := text.toList.head? == some '-'
  let chars := if negative then text.toList.tail else text.toList
  let digits := (chars.map Char.toLower).dropWhile (· = '0')
  if digits.isEmpty then "0" else String.ofList (signText negative ++ digits)

theorem isNumeral_write {radix : UInt32} {a : Integer} (range : IsRadix radix)
    (canonical : a.Canonical) : IsNumeral radix.toNat a.toInt (write radix a) := by
  have small := magnitude_lt range.1 a.toInt.natAbs
  have nonempty := magnitude_ne_nil radix.toNat a.toInt.natAbs
  refine ⟨_, _, toList_write range canonical, ?_, ofDigits_magnitude _ _, ?_, ?_⟩
  · rw [List.forall₂_map_left_iff, List.forall₂_same]
    intro value member
    exact ⟨small value member, getElem?_alphabet ((small value member).trans_le range.2)⟩
  · simpa using nonempty
  · intro head
    rw [List.head?_map, Option.map_eq_some_iff] at head
    obtain ⟨value, first, isZero⟩ := head
    have inside := (small value (List.mem_of_mem_head? first)).trans_le range.2
    rw [digitChar_eq_zero_iff inside] at isZero
    rw [magnitude_of_head? (isZero ▸ first)]
    rfl

theorem toLower_alphabet : ∀ c ∈ alphabet, c.toLower = c := by
  have all : alphabet.all (fun c => c.toLower = c) = true := by decide
  simpa only [List.all_eq_true, decide_eq_true_eq] using all

theorem forall₂_isDigit {digits : List Char} {values : List Nat}
    (same : List.Forall₂ (fun c value => value < radix ∧ alphabet[value]? = some c) digits values) :
    List.Forall₂ (IsDigit radix) digits values := by
  refine same.imp ?_
  rintro c value ⟨small, found⟩
  exact ⟨small, by rw [found, toLower_alphabet c (List.mem_of_getElem? found)]⟩

theorem reads_of_isNumeral {n : Int} {text : String} (numeral : IsNumeral radix n text) :
    Reads radix text n := by
  obtain ⟨digits, values, split, same, value, nonempty, -⟩ := numeral
  refine ⟨_, digits, values, split, nonempty, forall₂_isDigit same, ?_⟩
  rw [value, signed_decide]

theorem eq_map_digitChar {digits : List Char} {values : List Nat} (range : radix ≤ 36)
    (same : List.Forall₂ (fun c value => value < radix ∧ alphabet[value]? = some c) digits values) :
    digits = values.map digitChar := by
  induction same with
  | nil => rfl
  | cons first _ ih =>
    have found := getElem?_alphabet (first.1.trans_le range)
    rw [List.map_cons, ← ih, Option.some.inj (first.2.symm.trans found)]

theorem IsNumeral.toList_eq {n : Int} {text : String} (range : 2 ≤ radix ∧ radix ≤ 36)
    (numeral : IsNumeral radix n text) :
    text.toList = signText (n < 0) ++ (magnitude radix n.natAbs).map digitChar := by
  obtain ⟨digits, values, split, same, value, nonempty, noZero⟩ := numeral
  have small : ∀ value ∈ values, value < radix := values_lt (forall₂_isDigit same)
  obtain rfl := eq_map_digitChar range.2 same
  rw [split, List.append_cancel_left_eq]
  cases values with
  | nil => exact absurd rfl nonempty
  | cons first rest =>
    have head := digitChar_eq_zero_iff ((small first (by simp)).trans_le range.2)
    by_cases zero : first = 0
    · have only := noZero (by rw [List.map_cons, List.head?_cons, head.mpr zero])
      have none : rest = [] := by simpa using (List.cons.inj only).2
      subst zero none
      have nothing : n.natAbs = 0 := by simpa using value.symm
      rw [magnitude, if_pos nothing]
    · have kept := dropWhile_zero_eq_digits range.1 small
      rw [List.dropWhile_cons_of_neg (by simpa using zero), value] at kept
      have some : n.natAbs ≠ 0 := by
        intro nothing
        simp [nothing] at kept
      rw [magnitude, if_neg some, kept]

/-- An integer has one numeral. -/
theorem IsNumeral.unique {n : Int} {text text' : String} (range : 2 ≤ radix ∧ radix ≤ 36)
    (numeral : IsNumeral radix n text) (numeral' : IsNumeral radix n text') : text = text' :=
  String.toList_inj.mp ((numeral.toList_eq range).trans (numeral'.toList_eq range).symm)

theorem map_toLower {digits : List Char} {values : List Nat} (range : radix ≤ 36)
    (read : List.Forall₂ (IsDigit radix) digits values) :
    digits.map Char.toLower = values.map digitChar := by
  induction read with
  | nil => rfl
  | cons first _ ih =>
    have lower := getElem?_alphabet (first.1.trans_le range)
    rw [List.map_cons, List.map_cons, ih, ← Option.some.inj (first.2.symm.trans lower)]

theorem write_eq_normalized {text : String} {radix : UInt32} {a : Integer}
    (range : IsRadix radix) (canonical : a.Canonical) (reads : Reads radix.toNat text a.toInt) :
    write radix a = normalized text := by
  obtain ⟨negative, digits, values, split, nonempty, read, value⟩ := reads
  have taken : negative = false → digits.head? ≠ some '-' := fun _ head =>
    minus_not_mem read (List.mem_of_mem_head? head)
  have lowered : (digits.map Char.toLower).dropWhile (· = '0') =
      (Nat.digits radix.toNat (Nat.ofDigits radix.toNat values.reverse)).reverse.map digitChar := by
    have small := values_lt read
    rw [map_toLower range.2 read,
      dropWhile_digitChar fun v member => (small v member).trans_le range.2,
      dropWhile_zero_eq_digits range.1 small]
  apply String.toList_inj.mp
  rw [toList_write range canonical, normalized, split, head?_sign taken, tail_sign, lowered, value]
  generalize Nat.ofDigits radix.toNat values.reverse = n
  by_cases zero : n = 0
  · subst zero
    cases negative <;> simp [magnitude, signText, digitChar]
  · have some : (Nat.digits radix.toNat n).reverse.map digitChar ≠ [] := by
      simpa [Nat.digits_eq_nil_iff_eq_zero] using zero
    have sign : decide (signed negative n < 0) = negative := by
      cases negative with
      | true => simpa using Nat.pos_of_ne_zero zero
      | false => simp
    rw [sign, natAbs_signed, if_neg (by simpa using some), String.toList_ofList, magnitude,
      if_neg zero]

/-- Writing gives the numeral of an integer, and reading it gives the integer back. Writing
what was read from any text gives the text in lower case, without leading zeros and without
the sign of a zero. -/
theorem toText_numeral_parse {radix : UInt32} (range : IsRadix radix) :
    (∀ a : Integer, a.Canonical → ∃ text, a.toText radix = .ok text ∧
      IsNumeral radix.toNat a.toInt text ∧ parse text radix = .ok a) ∧
    ∀ text a, parse text radix = .ok a → a.toText radix = .ok (normalized text) := by
  constructor
  · intro a canonical
    have numeral := isNumeral_write range canonical
    obtain ⟨a', found, canonical', same⟩ := parse_of_reads range (reads_of_isNumeral numeral)
    refine ⟨_, if_pos ((isRadix_iff radix).mpr range), numeral, ?_⟩
    rw [found, canonical'.eq_of_toInt canonical same]
  · intro text a found
    rw [toText, if_pos ((isRadix_iff radix).mpr range),
      write_eq_normalized range (canonical_parse found) (reads_of_parse found).2]

theorem toText_numeral_parse_hex :
    IsRadix 16 ∧ (ofInt32 (-255)).Canonical ∧
      (∃ text, (ofInt32 (-255)).toText 16 = .ok text ∧
        IsNumeral 16 (ofInt32 (-255)).toInt text ∧ parse text 16 = .ok (ofInt32 (-255))) ∧
      parse "-00Ff" 16 = .ok (ofInt32 (-255)) ∧
      (ofInt32 (-255)).toText 16 = .ok (normalized "-00Ff") ∧ normalized "-00Ff" = "-ff" := by
  have range : IsRadix 16 := by decide
  have canonical := canonical_ofInt32 (-255)
  have found : parse "-00Ff" 16 = .ok (ofInt32 (-255)) := by decide
  exact ⟨range, canonical, (toText_numeral_parse range).1 _ canonical, found,
    (toText_numeral_parse range).2 _ _ found, by decide⟩

end CallByNeed.Integer
