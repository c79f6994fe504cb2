import CallByNeed.Proofs.CanonicalForm
import Mathlib.Algebra.Order.Ring.Int
import Mathlib.Tactic.LinearCombination
import Mathlib.Tactic.Ring
import Mathlib.Tactic.Zify

set_option autoImplicit false

/-!
What the results of the word-by-word operations denote.

The words of an integer are its residues: word `i` is the number divided by
`2 ^ (32 * i)`, modulo `2 ^ 32`. Sums and negations denote sums and negations,
shifts multiply and divide by powers of two.
-/

namespace CallByNeed

theorem Word.toNat_ofInt (n : Int) : ((UInt32.ofInt n).toNat : Int) = n % 2 ^ 32 := by
  have low : 0 ≤ n % 2 ^ 32 := Int.emod_nonneg _ (by decide)
  have high : n % 2 ^ 32 < 2 ^ 32 := Int.emod_lt_of_pos _ (by decide)
  rw [UInt32.ofInt, UInt32.toNat_ofNat']
  omega

theorem Word.toNat_and_mask (w mask : UInt32) {k : Nat} (ones : mask.toNat = 2 ^ k - 1) :
    (w &&& mask).toNat = w.toNat % 2 ^ k := by
  rw [UInt32.toNat_and, ones, Nat.and_two_pow_sub_one_eq_mod]

/-- A bit above the word is added to it. -/
theorem Word.toNat_or_bit (w bit : UInt32) {k : Nat} (power : bit.toNat = 2 ^ k)
    (below : w.toNat < 2 ^ k) : (w ||| bit).toNat = 2 ^ k + w.toNat := by
  have disjoint := Nat.two_pow_add_eq_or_of_lt below 1
  rw [Nat.mul_one] at disjoint
  rw [UInt32.toNat_or, power, Nat.or_comm, disjoint]

namespace Integer

/-! Words of an integer -/

@[simp] theorem denote_nil (negative : Bool) : denote [] negative = if negative then -1 else 0 := by
  cases negative <;> rfl

@[simp] theorem denote_cons (w : UInt32) (ws : List UInt32) (negative : Bool) :
    denote (w :: ws) negative = w.toNat + 2 ^ 32 * denote ws negative := by
  have split : 32 * (w :: ws).length = 32 * ws.length + 32 := by simp; omega
  cases negative with
  | false => simp [denote, wordsToNat]
  | true =>
    rw [denote, denote, wordsToNat, split, Nat.shiftLeft_add]
    simp only [if_true]
    omega

theorem denote_mod (ws : List UInt32) (negative : Bool) :
    denote ws negative % 2 ^ (32 * ws.length) = wordsToNat ws := by
  have bound := wordsToNat_lt ws
  rw [Nat.one_shiftLeft] at bound
  have small : (wordsToNat ws : Int) % 2 ^ (32 * ws.length) = wordsToNat ws :=
    Int.emod_eq_of_lt (by omega) (by exact_mod_cast bound)
  cases negative with
  | false => simpa [denote] using small
  | true =>
    simp only [denote, if_true, Nat.one_shiftLeft]
    push_cast
    rw [Int.sub_emod_right, small]

theorem getD_append_fill (fill : UInt32) (ws : List UInt32) (n i : Nat) :
    (ws ++ List.replicate n fill).getD i fill = ws.getD i fill := by
  simp only [List.getD_eq_getElem?_getD, List.getElem?_append, List.getElem?_replicate]
  split
  · rfl
  · next beyond =>
    rw [List.getElem?_eq_none (Nat.le_of_not_lt beyond)]
    split <;> rfl

/-- The words that are trimmed off stay where they were. -/
@[simp] theorem wordAt_make (ws : List UInt32) (negative : Bool) (i : Nat) :
    (make ws negative).wordAt i = ws.getD i (fillWord negative) := by
  obtain ⟨n, split⟩ := exists_trim_append (fillWord negative) ws
  conv => rhs; rw [split, getD_append_fill]
  rfl

@[simp] theorem neg_one_div_two_pow (k : Nat) : (-1 : Int) / 2 ^ k = -1 := by
  have positive : (0 : Int) < 2 ^ k := Int.pow_pos (by decide)
  exact ((Int.ediv_emod_unique (r := 2 ^ k - 1) positive).mpr ⟨by ring, by omega, by omega⟩).1

theorem wordAt_eq (a : Integer) (i : Nat) :
    a.wordAt i = UInt32.ofInt (a.toInt / 2 ^ (32 * i)) := by
  obtain ⟨ws, negative⟩ := a
  show ws.getD i (fillWord negative) = UInt32.ofInt (denote ws negative / 2 ^ (32 * i))
  induction ws generalizing i with
  | nil =>
    cases negative with
    | false => simp [fillWord]; rfl
    | true => simp [fillWord]; rfl
  | cons w ws ih =>
    have bound := w.toNat_lt
    rw [denote_cons]
    cases i with
    | zero =>
      rw [← UInt32.toNat_inj, ← Int.natCast_inj, Word.toNat_ofInt]
      simp
      omega
    | succ i =>
      have split : (2 : Int) ^ (32 * (i + 1)) = 2 ^ 32 * 2 ^ (32 * i) := by
        rw [← Int.pow_add]
        congr 1
        omega
      have high : ((w.toNat : Int) + 2 ^ 32 * denote ws negative) / 2 ^ 32 = denote ws negative := by
        omega
      rw [split, ← Int.ediv_ediv_of_nonneg (by decide), high]
      exact ih i

/-! Complement and bitwise operations -/

@[simp] theorem toInt_complement (a : Integer) : a.complement.toInt = -a.toInt - 1 := by
  obtain ⟨ws, negative⟩ := a
  rw [complement, toInt_make]
  show denote (ws.map (~~~ ·)) (!negative) = -denote ws negative - 1
  induction ws with
  | nil => cases negative <;> rfl
  | cons w ws ih =>
    have bound := w.toNat_lt
    rw [List.map_cons, denote_cons, denote_cons, ih, UInt32.toNat_not]
    show ((4294967296 - 1 - w.toNat : Nat) : Int) + _ = _
    omega

theorem getD_zipWith {f : UInt32 → UInt32 → UInt32} {as bs : List UInt32} {x y : UInt32}
    (lengths : as.length = bs.length) (i : Nat) :
    (List.zipWith f as bs).getD i (f x y) = f (as.getD i x) (bs.getD i y) := by
  simp only [List.getD_eq_getElem?_getD, List.getElem?_zipWith]
  by_cases inside : i < as.length
  · simp [inside, lengths ▸ inside]
  · rw [List.getElem?_eq_none (by omega), List.getElem?_eq_none (by omega)]
    rfl

@[simp] theorem wordAt_padded (a : Integer) (n i : Nat) : (a.padded n).getD i a.fill = a.wordAt i :=
  getD_append_fill a.fill a.words _ i

/-- Where the signs go with the fill words, every word of the infinite sequences does. -/
theorem wordAt_zipWords {word : UInt32 → UInt32 → UInt32} {sign : Bool → Bool → Bool}
    (fills : ∀ x y, fillWord (sign x y) = word (fillWord x) (fillWord y)) (a b : Integer)
    (i : Nat) : (zipWords word sign a b).wordAt i = word (a.wordAt i) (b.wordAt i) := by
  rw [zipWords, wordAt_make, fills, getD_zipWith (length_padded_width a b)]
  exact congrArg₂ word (a.wordAt_padded _ i) (b.wordAt_padded _ i)

@[simp] theorem wordAt_and (a b : Integer) (i : Nat) :
    (a.and b).wordAt i = a.wordAt i &&& b.wordAt i :=
  wordAt_zipWords (by decide) a b i

@[simp]
theorem wordAt_or (a b : Integer) (i : Nat) : (a.or b).wordAt i = a.wordAt i ||| b.wordAt i :=
  wordAt_zipWords (by decide) a b i

@[simp] theorem wordAt_xor (a b : Integer) (i : Nat) :
    (a.xor b).wordAt i = a.wordAt i ^^^ b.wordAt i :=
  wordAt_zipWords (by decide) a b i

/-! Sum, negation and difference -/

@[simp]
theorem length_addWords {carry : Nat} {as bs : List UInt32} (lengths : as.length = bs.length) :
    (addWords carry as bs).length = as.length := by
  induction as generalizing carry bs with
  | nil => simp [addWords]
  | cons a as ih =>
    cases bs with
    | nil => cases lengths
    | cons b bs => simp [addWords, ih (Nat.succ.inj lengths)]

/-- Two limb sums make one word of the sum and the carry into the next. -/
theorem exists_addWords_cons (carry : Nat) (a b : UInt32) :
    ∃ (word : UInt32) (next : Nat), carry + a.toNat + b.toNat = word.toNat + 2 ^ 32 * next ∧
      ∀ as bs, addWords carry (a :: as) (b :: bs) = word :: addWords next as bs := by
  have limbs (w : UInt32) : w.toNat = 0x10000 * Word.highLimb w + Word.lowLimb w :=
    (Nat.div_add_mod _ _).symm
  refine ⟨_, _, ?_, fun _ _ => rfl⟩
  rw [Word.ofLimbs, UInt32.toNat_ofNat', limbs a, limbs b]
  omega

/-- What is left out of the words of a sum is the last carry. -/
theorem exists_carry_addWords (carry : Nat) {as bs : List UInt32}
    (lengths : as.length = bs.length) :
    ∃ last, carry + wordsToNat as + wordsToNat bs =
      wordsToNat (addWords carry as bs) + 2 ^ (32 * as.length) * last := by
  induction as generalizing carry bs with
  | nil =>
    cases bs with
    | nil => exact ⟨carry, by simp [addWords, wordsToNat]⟩
    | cons => cases lengths
  | cons a as ih =>
    cases bs with
    | nil => cases lengths
    | cons b bs =>
      obtain ⟨word, next, low, step⟩ := exists_addWords_cons carry a b
      obtain ⟨last, high⟩ := ih next (Nat.succ.inj lengths)
      refine ⟨last, ?_⟩
      rw [step, List.length_cons, Nat.mul_succ, Nat.add_comm (32 * _), Nat.pow_add, Nat.mul_assoc]
      simp only [wordsToNat]
      omega

/-- The words hold the residue, and the top bit the sign. -/
theorem toInt_ofWords (ws : List UInt32) :
    (ofWords ws).toInt = (wordsToNat ws : Int).bmod (2 ^ (32 * ws.length)) := by
  rw [ofWords, toInt_make]
  cases empty : ws.getLast? with
  | none =>
    rw [List.getLast?_eq_none_iff] at empty
    subst empty
    rfl
  | some top =>
    obtain ⟨low, rfl⟩ := List.getLast?_eq_some_iff.mp empty
    have lowBound := wordsToNat_lt low
    have bound := wordsToNat_lt (low ++ [top])
    have value : wordsToNat (low ++ [top]) = wordsToNat low + top.toNat * 2 ^ (32 * low.length) := by
      rw [wordsToNat_append, Nat.shiftLeft_eq]
      simp [wordsToNat]
    have width : 2 ^ (32 * (low ++ [top]).length) = 2 ^ 32 * 2 ^ (32 * low.length) := by
      rw [← Nat.pow_add]
      congr 1
      simp
      omega
    rw [Nat.one_shiftLeft] at lowBound bound
    simp only [Option.any_some, denote, Nat.one_shiftLeft, Int.bmod_def]
    rw [Int.emod_eq_of_lt (by omega) (by omega), width]
    by_cases high : 0x80000000 ≤ top.toNat
    · have : 0x80000000 * 2 ^ (32 * low.length) ≤ top.toNat * 2 ^ (32 * low.length) :=
        Nat.mul_le_mul_right _ high
      rw [if_pos (by simpa using high), if_neg (by omega)]
    · have : (top.toNat + 1) * 2 ^ (32 * low.length) ≤ 0x80000000 * 2 ^ (32 * low.length) :=
        Nat.mul_le_mul_right _ (by omega)
      rw [Nat.add_mul] at this
      rw [if_neg (by simpa using high), if_pos (by omega)]
      simp

theorem toInt_bounds (a : Integer) :
    -2 ^ (32 * a.words.length) ≤ a.toInt ∧ a.toInt < 2 ^ (32 * a.words.length) := by
  have bound := wordsToNat_lt a.words
  rw [Nat.one_shiftLeft] at bound
  have bound : (wordsToNat a.words : Int) < 2 ^ (32 * a.words.length) := by exact_mod_cast bound
  unfold toInt denote
  rw [Nat.one_shiftLeft]
  cases a.negative with
  | false => simp; omega
  | true => simp; omega

/-- Bounds by a number of words that is large enough. -/
theorem toInt_bounds_of_le {a : Integer} {n : Nat} (h : a.words.length ≤ n) :
    -2 ^ (32 * n) ≤ a.toInt ∧ a.toInt < 2 ^ (32 * n) := by
  have wider : (2 : Nat) ^ (32 * a.words.length) ≤ 2 ^ (32 * n) :=
    Nat.pow_le_pow_right (by decide) (by omega)
  have wider : (2 : Int) ^ (32 * a.words.length) ≤ 2 ^ (32 * n) := by exact_mod_cast wider
  have bounds := a.toInt_bounds
  omega

theorem toInt_mod_padded (a : Integer) {n : Nat} (h : a.words.length ≤ n) :
    a.toInt % (2 ^ (32 * n) : Nat) = wordsToNat (a.padded n) := by
  have residue := denote_mod (a.padded n) a.negative
  rw [denote_padded, a.length_padded h] at residue
  exact_mod_cast residue

theorem wordsToNat_addWords_mod {as bs : List UInt32} (lengths : as.length = bs.length) :
    (wordsToNat (addWords 0 as bs) : Int) % (2 ^ (32 * as.length) : Nat) =
      (wordsToNat as + wordsToNat bs) % (2 ^ (32 * as.length) : Nat) := by
  obtain ⟨last, sum⟩ := exists_carry_addWords 0 lengths
  rw [Nat.zero_add] at sum
  have sum' : (wordsToNat as : Int) + wordsToNat bs =
      wordsToNat (addWords 0 as bs) + (2 ^ (32 * as.length) : Nat) * last := by
    exact_mod_cast sum
  rw [sum', Int.add_mul_emod_self_left]

@[simp] theorem toInt_add (a b : Integer) : (a + b).toInt = a.toInt + b.toInt := by
  have left : a.words.length ≤ width a b := Nat.le_max_left _ _
  have right : b.words.length ≤ width a b := Nat.le_max_right _ _
  have length := a.length_padded (Nat.le_succ_of_le left)
  have lengths : (a.padded (width a b + 1)).length = (b.padded (width a b + 1)).length := by
    rw [length, b.length_padded (Nat.le_succ_of_le right)]
  have sum := wordsToNat_addWords_mod lengths
  rw [length, ← a.toInt_mod_padded (Nat.le_succ_of_le left),
    ← b.toInt_mod_padded (Nat.le_succ_of_le right), ← Int.add_emod] at sum
  show (ofWords (addWords 0 (a.padded (width a b + 1)) (b.padded (width a b + 1)))).toInt = _
  rw [toInt_ofWords, length_addWords lengths, length, ← Int.emod_bmod, sum, Int.emod_bmod]
  -- The words have room for the sum and its sign.
  have wide : (2 : Nat) ^ (32 * (width a b + 1)) = 2 ^ 32 * 2 ^ (32 * width a b) := by
    rw [← Nat.pow_add]
    congr 1
    omega
  have bounds := toInt_bounds_of_le left
  have bounds' := toInt_bounds_of_le right
  apply Int.bmod_eq_of_le
  · rw [wide]; push_cast; omega
  · rw [wide]; push_cast; omega

@[simp] theorem toInt_zero : zero.toInt = 0 := by decide

@[simp] theorem toInt_one : one.toInt = 1 := by decide

@[simp] theorem toInt_neg (a : Integer) : (-a).toInt = -a.toInt := by
  show (a.complement + one).toInt = _
  rw [toInt_add, toInt_complement, toInt_one]
  omega

@[simp] theorem toInt_sub (a b : Integer) : (a - b).toInt = a.toInt - b.toInt := by
  show (a + -b).toInt = _
  rw [toInt_add, toInt_neg]
  omega

@[simp] theorem toInt_signum (a : Integer) : a.signum.toInt = a.toInt.sign := by
  have order := compare_eq a zero
  rw [toInt_zero] at order
  unfold signum
  split
  · next greater =>
    rw [greater, eq_comm, Int.compare_eq_gt] at order
    rw [toInt_one, Int.sign_eq_one_of_pos order]
  · next less =>
    rw [less, eq_comm, Int.compare_eq_lt] at order
    rw [Int.sign_eq_neg_one_of_neg order]
    decide
  · next equal =>
    rw [equal, eq_comm, Int.compare_eq_eq] at order
    rw [toInt_zero, order, Int.sign_zero]

@[simp] theorem toInt_abs (a : Integer) : a.abs.toInt = |a.toInt| := by
  unfold abs
  split
  · next negative =>
    rw [← toInt_lt_zero_iff] at negative
    rw [toInt_neg, abs_of_neg negative]
  · next positive =>
    rw [← toInt_lt_zero_iff, Int.not_lt] at positive
    rw [abs_of_nonneg positive]

/-- Whatever the lengths and signs of the operands, sums, opposites, differences, magnitudes and
signs are those of the integers. -/
theorem sums_exact (a b : Integer) :
    (a + b).toInt = a.toInt + b.toInt ∧ (-a).toInt = -a.toInt ∧
    (a - b).toInt = a.toInt - b.toInt ∧ a.abs.toInt = |a.toInt| ∧
    a.signum.toInt = a.toInt.sign :=
  ⟨toInt_add a b, toInt_neg a, toInt_sub a b, toInt_abs a, toInt_signum a⟩

/-! Numbers of one and two words -/

@[simp] theorem toInt_ofUInt32 (n : UInt32) : (ofUInt32 n).toInt = n.toNat := by
  simp [ofUInt32, denote, wordsToNat]

@[simp] theorem toInt_ofUInt64 (n : UInt64) : (ofUInt64 n).toInt = n.toNat := by
  have bound := n.toNat_lt
  have high : (n >>> 32).toNat = n.toNat / 2 ^ 32 := by
    simp [UInt64.toNat_shiftRight, Nat.shiftRight_eq_div_pow]
  simp only [ofUInt64, toInt_make, denote_cons, denote_nil, UInt64.toNat_toUInt32, high]
  simp
  omega

@[simp] theorem toInt_ofULong (x : ULong) : (ofULong x).toInt = x.toNat := by
  simp only [ofULong, toInt_make, denote_cons, denote_nil, ULong.toNat]
  simp
  omega

/-- Zero has no words in canonical form. -/
theorem Canonical.isZero_iff {a : Integer} (canonical : a.Canonical) :
    a.isZero = true ↔ a.toInt = 0 := by
  constructor
  · obtain ⟨ws, negative⟩ := a
    intro zero
    simp only [isZero, Bool.and_eq_true, Bool.not_eq_true', List.isEmpty_iff] at zero
    obtain ⟨rfl, rfl⟩ := zero
    rfl
  · intro same
    rw [canonical.eq_of_toInt (canonical_ofInt32 0) same]
    rfl

/-! Shifts -/

section Shift

-- Words move up by `l` bits and down by the other `k`; `s` and `t` are these amounts as words.
variable {l k : Nat} {s t : UInt32} (hs : s.toNat = l) (ht : t.toNat = k) (sum : l + k = 32)

section Carry

include sum

/-- A word that moves up keeps its low bits and hands on its high ones. -/
theorem low_add_carry (w : UInt32) :
    w.toNat * 2 ^ l % 2 ^ 32 + 2 ^ 32 * (w.toNat / 2 ^ k) = w.toNat * 2 ^ l := by
  have split : 2 ^ 32 = 2 ^ l * 2 ^ k := by rw [← Nat.pow_add, sum]
  have quotient : w.toNat * 2 ^ l / 2 ^ 32 = w.toNat / 2 ^ k := by
    rw [split, Nat.mul_comm, Nat.mul_div_mul_left _ _ (Nat.two_pow_pos l)]
  rw [← quotient]
  exact Nat.mod_add_div _ _

end Carry

variable (upward : 0 < l) (downward : 0 < k)
include hs ht sum upward downward

theorem toNat_shiftLeft_or_shiftRight (lower upper : UInt32) :
    ((upper <<< s) ||| (lower >>> t)).toNat =
      upper.toNat * 2 ^ l % 2 ^ 32 + lower.toNat / 2 ^ k := by
  have split : 2 ^ 32 = 2 ^ l * 2 ^ k := by rw [← Nat.pow_add, sum]
  have carried : lower.toNat / 2 ^ k < 2 ^ l := by
    apply Nat.div_lt_of_lt_mul
    rw [Nat.mul_comm, ← split]
    exact lower.toNat_lt
  rw [UInt32.toNat_or, UInt32.toNat_shiftLeft, UInt32.toNat_shiftRight, hs, ht,
    Nat.mod_eq_of_lt (by omega : l < 32), Nat.mod_eq_of_lt (by omega : k < 32), Nat.shiftLeft_eq,
    Nat.shiftRight_eq_div_pow, split, Nat.mul_comm upper.toNat, Nat.mul_mod_mul_left]
  exact (Nat.two_pow_add_eq_or_of_lt carried _).symm

theorem denote_neighbours_left (lower : UInt32) (ws : List UInt32) (negative : Bool) :
    denote (neighbours (fun lower upper => (upper <<< s) ||| (lower >>> t))
      (lower :: ws ++ [fillWord negative])) negative =
      denote ws negative * 2 ^ l + (lower.toNat / 2 ^ k : Nat) := by
  have glue := toNat_shiftLeft_or_shiftRight hs ht sum upward downward
  induction ws generalizing lower with
  | nil =>
    show denote [(fillWord negative <<< s) ||| (lower >>> t)] negative = _
    rw [denote_cons, denote_nil, glue]
    cases negative with
    | false => simp [fillWord]
    | true =>
      have power : 2 ^ l ≤ 2 ^ 31 := Nat.pow_le_pow_right (by decide) (by omega)
      have power' : 0 < 2 ^ l := Nat.two_pow_pos l
      have ones : (fillWord true).toNat * 2 ^ l % 2 ^ 32 = 2 ^ 32 - 2 ^ l := by
        show 4294967295 * 2 ^ l % 2 ^ 32 = 2 ^ 32 - 2 ^ l
        omega
      have cast : (2 : Int) ^ l = (2 ^ l : Nat) := by push_cast; rfl
      rw [ones, cast]
      simp only [if_true]
      omega
  | cons w ws ih =>
    have whole := low_add_carry sum w
    show denote (_ :: neighbours _ (w :: ws ++ [fillWord negative])) negative = _
    rw [denote_cons, denote_cons, glue, ih w]
    generalize w.toNat / 2 ^ k = high, w.toNat * 2 ^ l % 2 ^ 32 = low at whole
    zify at whole
    push_cast
    linear_combination whole

theorem denote_neighbours_right (ws : List UInt32) (negative : Bool) :
    denote (neighbours (fun lower upper => (lower >>> t) ||| (upper <<< s))
      (ws ++ [fillWord negative])) negative = denote ws negative / 2 ^ k := by
  have glue := toNat_shiftLeft_or_shiftRight hs ht sum upward downward
  have split : (2 : Int) ^ 32 = 2 ^ k * 2 ^ l := by rw [← Int.pow_add, Nat.add_comm, sum]
  have positive : (2 : Int) ^ k ≠ 0 := Int.ne_of_gt (Int.pow_pos (by decide))
  induction ws with
  | nil =>
    show denote [] negative = _
    cases negative <;> simp
  | cons w ws ih =>
    obtain ⟨next, rest, follows⟩ : ∃ next rest, ws ++ [fillWord negative] = next :: rest :=
      List.exists_cons_of_ne_nil (by simp)
    have value : denote ws negative = next.toNat + 2 ^ k * (2 ^ l * denote rest negative) := by
      rw [← denote_append_fill ws negative 1, List.replicate_one, follows, denote_cons, split,
        Int.mul_assoc]
    have whole := low_add_carry sum next
    have quotient : ((w.toNat : Int) + 2 ^ 32 * denote ws negative) / 2 ^ k =
        (w.toNat / 2 ^ k : Nat) + 2 ^ l * denote ws negative := by
      rw [split, Int.mul_assoc, Int.add_mul_ediv_left _ _ positive]
      push_cast
      rfl
    have quotient' : denote ws negative / 2 ^ k =
        (next.toNat / 2 ^ k : Nat) + 2 ^ l * denote rest negative := by
      rw [value, Int.add_mul_ediv_left _ _ positive]
      push_cast
      rfl
    rw [follows] at ih
    rw [List.cons_append, follows, denote_cons, quotient]
    show denote (((w >>> t) ||| (next <<< s)) :: neighbours _ (next :: rest)) negative = _
    rw [denote_cons, ih, quotient', UInt32.or_comm, glue, value]
    generalize next.toNat / 2 ^ k = high, next.toNat * 2 ^ l % 2 ^ 32 = low at whole
    zify at whole
    push_cast
    linear_combination whole + 2 ^ l * denote rest negative * split

end Shift

theorem denote_zeros_append (n : Nat) (ws : List UInt32) (negative : Bool) :
    denote (List.replicate n 0 ++ ws) negative = denote ws negative * 2 ^ (32 * n) := by
  induction n with
  | zero => simp
  | succ n ih =>
    rw [List.replicate_succ, List.cons_append, denote_cons, ih, Nat.mul_succ, Int.pow_add]
    simp
    ring

theorem denote_drop (n : Nat) (ws : List UInt32) (negative : Bool) :
    denote (ws.drop n) negative = denote ws negative / 2 ^ (32 * n) := by
  induction n generalizing ws with
  | zero => simp
  | succ n ih =>
    cases ws with
    | nil =>
      cases negative <;> simp
    | cons w ws =>
      have bound := w.toNat_lt
      have high : ((w.toNat : Int) + 2 ^ 32 * denote ws negative) / 2 ^ 32 = denote ws negative := by
        omega
      rw [List.drop_succ_cons, ih, denote_cons, Nat.mul_succ, Nat.add_comm (32 * n), Int.pow_add,
        ← Int.ediv_ediv_of_nonneg (by decide), high]

/-- The amounts of a shift that is no whole number of words. -/
theorem toNat_shift_amounts {bits : Nat} (h : UInt32.ofNat (bits % 32) ≠ 0) :
    0 < bits % 32 ∧ (UInt32.ofNat (bits % 32)).toNat = bits % 32 ∧
      (32 - UInt32.ofNat (bits % 32)).toNat = 32 - bits % 32 := by
  have amount : (UInt32.ofNat (bits % 32)).toNat = bits % 32 := by
    rw [UInt32.toNat_ofNat']
    omega
  have rest : (32 - UInt32.ofNat (bits % 32)).toNat = 32 - bits % 32 := by
    rw [UInt32.toNat_sub_of_le, amount]
    · rfl
    · rw [UInt32.le_iff_toNat_le, amount]
      exact Nat.le_of_lt (Nat.mod_lt _ (by decide))
  have nonzero : (UInt32.ofNat (bits % 32)).toNat ≠ 0 := fun zero => h (UInt32.toNat_inj.mp zero)
  exact ⟨by omega, amount, rest⟩

theorem mod_eq_zero_of_ofNat {bits : Nat} (h : UInt32.ofNat (bits % 32) = 0) : bits % 32 = 0 := by
  have amount := congrArg UInt32.toNat h
  rw [UInt32.toNat_ofNat'] at amount
  simp at amount
  omega

@[simp] theorem toInt_shiftLeft (a : Integer) (bits : Nat) :
    (a.shiftLeft bits).toInt = a.toInt * 2 ^ bits := by
  have total : a.toInt * 2 ^ bits = a.toInt * 2 ^ (bits % 32) * 2 ^ (32 * (bits / 32)) := by
    rw [Int.mul_assoc, ← Int.pow_add, Nat.mod_add_div]
  unfold shiftLeft
  dsimp only
  split
  · next none =>
    rw [toInt_make, denote_zeros_append, total, mod_eq_zero_of_ofNat none]
    simp [toInt]
  · next some =>
    obtain ⟨positive, amount, rest⟩ := toNat_shift_amounts some
    have shifted := denote_neighbours_left amount rest (by omega) positive (by omega) 0 a.words
      a.negative
    rw [toInt_make, denote_zeros_append, total, fill, shifted]
    simp [toInt]

@[simp] theorem toInt_shiftRight (a : Integer) (bits : Nat) :
    (a.shiftRight bits).toInt = a.toInt / 2 ^ bits := by
  have total : a.toInt / 2 ^ bits = a.toInt / 2 ^ (32 * (bits / 32)) / 2 ^ (bits % 32) := by
    rw [Int.ediv_ediv_of_nonneg (Int.le_of_lt (Int.pow_pos (by decide))), ← Int.pow_add,
      Nat.div_add_mod]
  unfold shiftRight
  dsimp only
  split
  · next none =>
    rw [toInt_make, denote_drop, total, mod_eq_zero_of_ofNat none]
    simp [toInt]
  · next some =>
    obtain ⟨positive, amount, rest⟩ := toNat_shift_amounts some
    rw [toInt_make, fill, denote_neighbours_right rest amount (by omega) (by omega) positive,
      denote_drop, total]
    rfl

end Integer
end CallByNeed
