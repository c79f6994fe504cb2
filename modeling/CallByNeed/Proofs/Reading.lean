import CallByNeed.Proofs.Product
import Mathlib.Data.List.Forall2
import Mathlib.Data.Nat.Digits.Defs

set_option autoImplicit false

/-!
Reading numerals.

A numeral is an optional minus sign and one or more digits. Reading accepts the
numerals and nothing else, gives the number they stand for, and names the first
thing that is wrong with any other text. Digits are taken in groups of eight,
which changes nothing in the number.
-/

namespace CallByNeed.Integer

/-! Digits -/

/-- The digits by their values. -/
def alphabet : List Char := "0123456789abcdefghijklmnopqrstuvwxyz".toList

/-- The character is a digit of the radix and has this value; letters count in both cases. -/
def IsDigit (radix : Nat) (c : Char) (value : Nat) : Prop :=
  value < radix ∧ alphabet[value]? = some c.toLower

theorem alphabet_ascii : ∀ c ∈ alphabet, c.toNat < 128 := by
  have all : alphabet.all (·.toNat < 128) = true := by decide
  simpa only [List.all_eq_true, decide_eq_true_eq] using all

theorem digitValue?_eq (radix : UInt32) (c : Char) :
    digitValue? radix c = (alphabet.idxOf? c.toLower).filter (· < radix.toNat) := by
  have ascii : ∀ n < 128,
      (if '0' ≤ Char.ofNat n ∧ Char.ofNat n ≤ '9' then some ((Char.ofNat n).toNat - '0'.toNat)
        else if 'a' ≤ Char.ofNat n ∧ Char.ofNat n ≤ 'z' then
          some ((Char.ofNat n).toNat - 'a'.toNat + 10)
        else if 'A' ≤ Char.ofNat n ∧ Char.ofNat n ≤ 'Z' then
          some ((Char.ofNat n).toNat - 'A'.toNat + 10)
        else none) = alphabet.idxOf? (Char.ofNat n).toLower := by
    decide +kernel
  unfold digitValue?
  dsimp only
  congr 1
  by_cases small : c.toNat < 128
  · have known := ascii c.toNat small
    rwa [Char.ofNat_toNat] at known
  · -- Beyond these characters there is neither a digit nor a letter to lower.
    have bounds (x : Char) (h : x.toNat < 128) : ¬ c ≤ x := by
      intro below
      exact small (Nat.lt_of_le_of_lt below h)
    have same : c.toLower = c := dif_neg fun upper => bounds 'Z' (by decide) upper.2
    have absent : c ∉ alphabet := fun member => small (alphabet_ascii c member)
    rw [same, List.idxOf?_eq_none_iff.mpr absent, if_neg (fun h => bounds '9' (by decide) h.2),
      if_neg (fun h => bounds 'z' (by decide) h.2), if_neg (fun h => bounds 'Z' (by decide) h.2)]

theorem alphabet_nodup : alphabet.Nodup := by decide

@[simp] theorem digitValue?_eq_some_iff {radix : UInt32} {c : Char} {value : Nat} :
    digitValue? radix c = some value ↔ IsDigit radix.toNat c value := by
  rw [digitValue?_eq, Option.filter_eq_some_iff, IsDigit, decide_eq_true_eq, and_comm,
    List.idxOf?_eq_some_iff, List.getElem?_eq_some_iff]
  apply and_congr_right
  intro _
  constructor
  · rintro ⟨inside, found, -⟩
    exact ⟨inside, found⟩
  · rintro ⟨inside, found⟩
    refine ⟨inside, found, fun j earlier again => ?_⟩
    have same := alphabet_nodup.getElem_inj_iff.mp (again.trans found.symm)
    omega

theorem digitValue?_eq_none_iff {radix : UInt32} {c : Char} :
    digitValue? radix c = none ↔ ∀ value, ¬ IsDigit radix.toNat c value := by
  rw [Option.eq_none_iff_forall_ne_some]
  exact forall_congr' fun value => not_congr digitValue?_eq_some_iff

theorem not_isDigit_minus (radix value : Nat) : ¬ IsDigit radix '-' value := by
  rintro ⟨-, found⟩
  exact absurd (List.mem_of_getElem? found) (by decide)

@[simp] theorem digitValues_eq_ok_iff {radix : UInt32} {cs : List Char} {values : List Nat} :
    digitValues radix cs = .ok values ↔ List.Forall₂ (IsDigit radix.toNat) cs values := by
  induction cs generalizing values with
  | nil =>
    rw [digitValues, List.forall₂_nil_left_iff]
    exact ⟨fun h => (Except.ok.inj h).symm, fun h => congrArg _ h.symm⟩
  | cons c cs ih =>
    rw [digitValues, List.forall₂_cons_left_iff]
    cases first : digitValue? radix c with
    | none =>
      have noDigit := digitValue?_eq_none_iff.mp first
      constructor
      · intro h
        cases h
      · rintro ⟨value, _, digit, -⟩
        exact absurd digit (noDigit value)
    | some value =>
      have digit := digitValue?_eq_some_iff.mp first
      constructor
      · intro h
        cases rest : digitValues radix cs with
        | error e => simp [rest, Except.map] at h
        | ok others =>
          simp only [rest, Except.map, Except.ok.injEq] at h
          exact ⟨value, others, digit, ih.mp rest, h.symm⟩
      · rintro ⟨value', others, digit', rest, rfl⟩
        have same : value = value' :=
          Option.some.inj (first.symm.trans (digitValue?_eq_some_iff.mpr digit'))
        rw [ih.mpr rest, same]
        rfl

/-- The error names the leftmost character that is no digit. -/
theorem digitValues_eq_error_iff {radix : UInt32} {cs : List Char} {e : Error} :
    digitValues radix cs = .error e ↔ ∃ before c after, cs = before ++ c :: after ∧
      (∀ d ∈ before, ∃ value, IsDigit radix.toNat d value) ∧
      (∀ value, ¬ IsDigit radix.toNat c value) ∧ e = .invalidDigit c radix := by
  induction cs with
  | nil => simp [digitValues]
  | cons c cs ih =>
    rw [digitValues]
    cases first : digitValue? radix c with
    | none =>
      have noDigit := digitValue?_eq_none_iff.mp first
      constructor
      · intro h
        cases h
        exact ⟨[], c, cs, rfl, by simp, noDigit, rfl⟩
      · rintro ⟨before, bad, after, split, digits, -, rfl⟩
        cases before with
        | nil =>
          cases split
          rfl
        | cons d before =>
          cases split
          obtain ⟨value, digit⟩ := digits c (by simp)
          exact absurd digit (noDigit value)
    | some value =>
      have digit := digitValue?_eq_some_iff.mp first
      have rest : (digitValues radix cs).map (value :: ·) = .error e ↔
          digitValues radix cs = .error e := by
        cases digitValues radix cs <;> simp [Except.map]
      rw [rest, ih]
      constructor
      · rintro ⟨before, bad, after, rfl, digits, noDigit, rfl⟩
        refine ⟨c :: before, bad, after, rfl, ?_, noDigit, rfl⟩
        rintro d (_ | ⟨_, member⟩)
        · exact ⟨value, digit⟩
        · exact digits d member
      · rintro ⟨before, bad, after, split, digits, noDigit, rfl⟩
        cases before with
        | nil =>
          cases split
          exact absurd digit (noDigit value)
        | cons d before =>
          cases split
          exact ⟨before, bad, after, rfl, fun d member => digits d (by simp [member]), noDigit, rfl⟩

/-! The number that digits stand for -/

/-- The group holds fewer than eight digits of the radix. -/
structure Group.Fits (radix : Nat) (group : Group) : Prop where
  size_lt : group.size < 8
  power_eq : group.power = radix ^ group.size
  value_lt : group.value < radix ^ group.size

theorem Group.fits_empty (radix : Nat) : Group.Fits radix {} := ⟨by decide, rfl, Nat.one_pos⟩

theorem Group.Fits.push_value_lt {radix digit : Nat} {group : Group} (fits : group.Fits radix)
    (small : digit < radix) : (group.push radix digit).value < radix ^ (group.push radix digit).size := by
  show group.value * radix + digit < radix ^ (group.size + 1)
  have room : (group.value + 1) * radix ≤ radix ^ group.size * radix :=
    Nat.mul_le_mul_right _ fits.value_lt
  rw [Nat.add_mul] at room
  rw [Nat.pow_succ]
  omega

theorem Group.Fits.push_power_eq {radix : Nat} {group : Group} (fits : group.Fits radix) (digit : Nat) :
    (group.push radix digit).power = radix ^ (group.push radix digit).size := by
  show group.power * radix = radix ^ (group.size + 1)
  rw [fits.power_eq, Nat.pow_succ]

theorem toInt_ofUInt64_ofNat {n : Nat} (small : n < 2 ^ 64) :
    (ofUInt64 (UInt64.ofNat n)).toInt = n := by
  rw [toInt_ofUInt64, UInt64.toNat_ofNat', Nat.mod_eq_of_lt small]

/-- Up to eight digits of a radix up to 36 fit into 64 bits. -/
theorem toInt_appendTo {radix : Nat} {group : Group} (range : 1 ≤ radix ∧ radix ≤ 36)
    (size : group.size ≤ 8) (power : group.power = radix ^ group.size)
    (value : group.value < radix ^ group.size) (result : Integer) :
    (group.appendTo result).toInt = result.toInt * group.power + group.value := by
  have bound : radix ^ group.size ≤ 36 ^ 8 :=
    Nat.le_trans (Nat.pow_le_pow_right range.1 size) (Nat.pow_le_pow_left range.2 8)
  rw [Group.appendTo, toInt_add, toInt_mul, toInt_ofUInt64_ofNat (by omega),
    toInt_ofUInt64_ofNat (by omega)]

theorem toInt_ofDigits {radix : Nat} (range : 1 ≤ radix ∧ radix ≤ 36) {result : Integer}
    {group : Group} {digits : List Nat} (fits : group.Fits radix)
    (small : ∀ digit ∈ digits, digit < radix) :
    (ofDigits radix result group digits).toInt =
      digits.foldl (fun (n : Int) (digit : Nat) => n * radix + digit)
        (result.toInt * group.power + group.value) := by
  fun_induction ofDigits radix result group digits with
  | case1 result group empty =>
    have value : group.value = 0 := by simpa [empty] using fits.value_lt
    simp [fits.power_eq, empty, value]
  | case2 result group =>
    exact toInt_appendTo range (Nat.le_of_lt fits.size_lt) fits.power_eq fits.value_lt result
  | case3 result group digit digits next full ih =>
    have first : digit < radix := small digit (by simp)
    rw [ih (Group.fits_empty radix) fun d member => small d (by simp [member]),
      toInt_appendTo range (Nat.le_of_eq full) (fits.push_power_eq digit) (fits.push_value_lt first),
      List.foldl_cons]
    show List.foldl _ ((result.toInt * (group.power * radix : Nat) +
      (group.value * radix + digit : Nat)) * (1 : Nat) + (0 : Nat)) digits = _
    congr 1
    push_cast
    ring
  | case4 result group digit digits next full ih =>
    have first : digit < radix := small digit (by simp)
    have room := fits.size_lt
    have more : next.size ≠ 8 := full
    have size : next.size = group.size + 1 := rfl
    rw [ih ⟨by omega, fits.push_power_eq digit, fits.push_value_lt first⟩
      fun d member => small d (by simp [member]), List.foldl_cons]
    show List.foldl _ (result.toInt * (group.power * radix : Nat) +
      (group.value * radix + digit : Nat)) digits = _
    congr 1
    push_cast
    ring

theorem foldl_eq_ofDigits (radix : Nat) (values : List Nat) :
    values.foldl (fun (n : Int) (value : Nat) => n * radix + value) 0 =
      (Nat.ofDigits radix values.reverse : Nat) := by
  induction values using List.reverseRecOn with
  | nil => rfl
  | append_singleton values value ih =>
    rw [List.foldl_append, ih, List.reverse_append, List.reverse_singleton, List.singleton_append,
      Nat.ofDigits_cons]
    simp
    ring

theorem toInt_ofDigits_zero {radix : Nat} (range : 1 ≤ radix ∧ radix ≤ 36) {values : List Nat}
    (small : ∀ value ∈ values, value < radix) :
    (ofDigits radix zero {} values).toInt = (Nat.ofDigits radix values.reverse : Nat) := by
  rw [toInt_ofDigits range (Group.fits_empty radix) small, toInt_zero, ← foldl_eq_ofDigits]
  rfl

/-! Texts -/

/-- The sign as it is written. -/
def signText (negative : Bool) : List Char := if negative then ['-'] else []

/-- The number is within the range of radices. -/
def IsRadix (radix : UInt32) : Prop := 2 ≤ radix.toNat ∧ radix.toNat ≤ 36

instance (radix : UInt32) : Decidable (IsRadix radix) := inferInstanceAs (Decidable (_ ∧ _))

@[simp] theorem isRadix_iff (radix : UInt32) : isRadix radix = true ↔ IsRadix radix := by
  simp only [isRadix, IsRadix, Bool.and_eq_true, decide_eq_true_eq, UInt32.le_iff_toNat_le]
  rfl

/-- The text is an optional minus sign and one or more digits, and stands for `n`. -/
def Reads (radix : Nat) (text : String) (n : Int) : Prop :=
  ∃ negative digits values, text.toList = signText negative ++ digits ∧ digits ≠ [] ∧
    List.Forall₂ (IsDigit radix) digits values ∧
    n = signed negative (Nat.ofDigits radix values.reverse)

/-- The first thing that is wrong with a text: the radix, that there is nothing, a minus
sign that is not the first character, that there is nothing but a minus sign, or the
leftmost character after the sign that is no digit. -/
inductive FirstFault (radix : UInt32) (text : String) : Error → Prop where
  | radix : ¬ IsRadix radix → FirstFault radix text (.radixOutOfRange radix)
  | empty : IsRadix radix → text.toList = [] → FirstFault radix text .emptyNumber
  | interiorMinus : IsRadix radix → '-' ∈ text.toList.tail → FirstFault radix text .interiorMinus
  | onlyMinus : IsRadix radix → text.toList = ['-'] → FirstFault radix text .emptyNumber
  | invalidDigit {negative : Bool} {before after : List Char} {c : Char} : IsRadix radix →
      '-' ∉ text.toList.tail → text.toList = signText negative ++ before ++ c :: after → c ≠ '-' →
      (∀ d ∈ before, ∃ value, IsDigit radix.toNat d value) →
      (∀ value, ¬ IsDigit radix.toNat c value) → FirstFault radix text (.invalidDigit c radix)

/-- The sign is taken off if there is one. -/
theorem exists_sign (chars : List Char) :
    ∃ negative digits, chars = signText negative ++ digits ∧
      (negative = false → digits.head? ≠ some '-') := by
  by_cases signed : chars.head? = some '-'
  · obtain ⟨digits, rfl⟩ := List.head?_eq_some_iff.mp signed
    exact ⟨true, digits, rfl, by simp⟩
  · exact ⟨false, chars, rfl, fun _ => signed⟩

theorem head?_sign {negative : Bool} {digits : List Char}
    (taken : negative = false → digits.head? ≠ some '-') :
    ((signText negative ++ digits).head? == some '-') = negative := by
  cases negative with
  | true => rfl
  | false => simpa [signText] using taken rfl

theorem tail_sign (negative : Bool) (digits : List Char) :
    (if negative = true then (signText negative ++ digits).tail else signText negative ++ digits) =
      digits := by
  cases negative <;> rfl

theorem minus_mem_tail_iff {negative : Bool} {digits : List Char}
    (taken : negative = false → digits.head? ≠ some '-') :
    '-' ∈ (signText negative ++ digits).tail ↔ '-' ∈ digits := by
  cases negative with
  | true => rfl
  | false =>
    cases digits with
    | nil => rfl
    | cons d digits =>
      have first : '-' ≠ d := fun minus => taken rfl (minus ▸ rfl)
      simp [signText, first]

theorem parse_of_sign {text : String} {radix : UInt32} {negative : Bool} {digits : List Char}
    (range : IsRadix radix) (nonempty : text.toList ≠ [])
    (split : text.toList = signText negative ++ digits)
    (taken : negative = false → digits.head? ≠ some '-') :
    parse text radix =
      if digits.contains '-' then .error .interiorMinus
      else if digits.isEmpty then .error .emptyNumber
      else (digitValues radix digits).map fun values =>
        if negative then -ofDigits radix.toNat zero {} values
        else ofDigits radix.toNat zero {} values := by
  have sign : (text.toList.head? == some '-') = negative := by
    rw [split, head?_sign taken]
  have rest : (if negative = true then text.toList.tail else text.toList) = digits := by
    rw [split, tail_sign]
  simp only [parse, bind, Except.bind, pure, Except.pure, throw, throwThe, MonadExceptOf.throw,
    (isRadix_iff radix).mpr range, sign, rest]
  rw [if_neg (by decide), if_neg (by simpa using nonempty)]
  cases digitValues radix digits <;> rfl

theorem minus_not_mem {radix : Nat} {digits : List Char} {values : List Nat}
    (read : List.Forall₂ (IsDigit radix) digits values) : '-' ∉ digits := by
  induction read with
  | nil => exact List.not_mem_nil
  | cons first _ ih =>
    rw [List.mem_cons, not_or]
    exact ⟨fun minus => not_isDigit_minus _ _ (minus ▸ first), ih⟩

theorem values_lt {radix : Nat} {digits : List Char} {values : List Nat}
    (read : List.Forall₂ (IsDigit radix) digits values) : ∀ value ∈ values, value < radix := by
  induction read with
  | nil => exact fun _ member => absurd member List.not_mem_nil
  | cons first _ ih => exact List.forall_mem_cons.mpr ⟨first.1, ih⟩

theorem parse_of_reads {text : String} {radix : UInt32} {n : Int} (range : IsRadix radix)
    (reads : Reads radix.toNat text n) :
    ∃ a, parse text radix = .ok a ∧ a.Canonical ∧ a.toInt = n := by
  obtain ⟨negative, digits, values, split, nonempty, read, rfl⟩ := reads
  have unsigned : '-' ∉ digits := minus_not_mem read
  have magnitude := toInt_ofDigits_zero ⟨by have := range.1; omega, range.2⟩ (values_lt read)
  have found := parse_of_sign range (by simp [split, nonempty]) split
    fun _ head => unsigned (List.mem_of_mem_head? head)
  rw [if_neg (by simpa using unsigned), if_neg (by simpa using nonempty),
    digitValues_eq_ok_iff.mpr read] at found
  refine ⟨_, found, canonical_parse found, ?_⟩
  cases negative <;> simp [magnitude]

theorem parse_of_firstFault {text : String} {radix : UInt32} {e : Error}
    (fault : FirstFault radix text e) : parse text radix = .error e := by
  cases fault with
  | radix outside =>
    rw [← isRadix_iff, Bool.not_eq_true] at outside
    simp only [parse, outside]
    rfl
  | empty range nothing =>
    simp only [parse, (isRadix_iff radix).mpr range, nothing]
    rfl
  | interiorMinus range inside =>
    obtain ⟨negative, digits, split, taken⟩ := exists_sign text.toList
    have nonempty : text.toList ≠ [] := by
      intro nothing
      simp [nothing] at inside
    rw [split, minus_mem_tail_iff taken] at inside
    rw [parse_of_sign range nonempty split taken, if_pos (by simpa using inside)]
  | onlyMinus range only =>
    have split : text.toList = signText true ++ [] := only
    rw [parse_of_sign range (by simp [only]) split (by simp)]
    rfl
  | @invalidDigit negative before after c range outside split notMinus read unread =>
    -- The sign is the one that reading takes off: neither the digits before `c` nor `c`
    -- itself are a minus sign.
    have head : (before ++ c :: after).head? ≠ some '-' := by
      cases before with
      | nil => simpa using notMinus
      | cons d before =>
        obtain ⟨value, isDigit⟩ := read d (by simp)
        intro minus
        rw [List.cons_append, List.head?_cons, Option.some.injEq] at minus
        exact not_isDigit_minus _ value (minus ▸ isDigit)
    rw [List.append_assoc] at split
    rw [split, minus_mem_tail_iff fun _ => head] at outside
    rw [parse_of_sign range (by simp [split]) split fun _ => head,
      if_neg (by simpa using outside), if_neg (by simp),
      digitValues_eq_error_iff.mpr ⟨before, c, after, rfl, read, unread, rfl⟩]
    rfl

theorem reads_or_firstFault (text : String) (radix : UInt32) :
    (IsRadix radix ∧ ∃ n, Reads radix.toNat text n) ∨ ∃ e, FirstFault radix text e := by
  by_cases range : IsRadix radix
  case neg => exact .inr ⟨_, .radix range⟩
  by_cases inside : '-' ∈ text.toList.tail
  case pos => exact .inr ⟨_, .interiorMinus range inside⟩
  obtain ⟨negative, digits, split, taken⟩ := exists_sign text.toList
  cases values : digitValues radix digits with
  | error e =>
    obtain ⟨before, c, after, rfl, read, unread, rfl⟩ := digitValues_eq_error_iff.mp values
    have notMinus : c ≠ '-' := by
      rintro rfl
      rw [split, minus_mem_tail_iff taken] at inside
      simp at inside
    rw [← List.append_assoc] at split
    exact .inr ⟨_, .invalidDigit range inside split notMinus read unread⟩
  | ok values =>
    by_cases nonempty : digits = []
    · rw [nonempty, List.append_nil] at split
      cases negative with
      | true => exact .inr ⟨_, .onlyMinus range split⟩
      | false => exact .inr ⟨_, .empty range split⟩
    · exact .inl ⟨range, _, negative, digits, _, split, nonempty,
        digitValues_eq_ok_iff.mp values, rfl⟩

theorem reads_of_parse {text : String} {radix : UInt32} {a : Integer}
    (found : parse text radix = .ok a) : IsRadix radix ∧ Reads radix.toNat text a.toInt := by
  rcases reads_or_firstFault text radix with ⟨range, n, reads⟩ | ⟨e, fault⟩
  · obtain ⟨a', found', -, rfl⟩ := parse_of_reads range reads
    cases found.symm.trans found'
    exact ⟨range, reads⟩
  · cases found.symm.trans (parse_of_firstFault fault)

/-- A text stands for one integer. -/
theorem Reads.unique {text : String} {radix : UInt32} {m n : Int} (range : IsRadix radix)
    (reads : Reads radix.toNat text m) (reads' : Reads radix.toNat text n) : m = n := by
  obtain ⟨a, found, -, rfl⟩ := parse_of_reads range reads
  obtain ⟨b, found', -, rfl⟩ := parse_of_reads range reads'
  cases found.symm.trans found'
  rfl

theorem firstFault_of_parse {text : String} {radix : UInt32} {e : Error}
    (refused : parse text radix = .error e) : FirstFault radix text e := by
  rcases reads_or_firstFault text radix with ⟨range, n, reads⟩ | ⟨e', fault⟩
  · obtain ⟨a, found, -⟩ := parse_of_reads range reads
    cases refused.symm.trans found
  · cases refused.symm.trans (parse_of_firstFault fault)
    exact fault

/-- Reading accepts exactly the texts that are an optional minus sign and one or more
digits of a radix in range, with the integer they stand for in its one form. Any other
text is refused for the first thing that is wrong with it. -/
theorem parse_ok_iff_reads_error_iff_firstFault (text : String) (radix : UInt32) :
    (∀ a, parse text radix = .ok a ↔
      IsRadix radix ∧ Reads radix.toNat text a.toInt ∧ a.Canonical) ∧
    ∀ e, parse text radix = .error e ↔ FirstFault radix text e := by
  refine ⟨fun a => ⟨fun found => ?_, ?_⟩,
    fun e => ⟨firstFault_of_parse, parse_of_firstFault⟩⟩
  · obtain ⟨range, reads⟩ := reads_of_parse found
    exact ⟨range, reads, canonical_parse found⟩
  · rintro ⟨range, reads, canonical⟩
    obtain ⟨a', found, canonical', same⟩ := parse_of_reads range reads
    rw [found, canonical'.eq_of_toInt canonical same]

end CallByNeed.Integer
