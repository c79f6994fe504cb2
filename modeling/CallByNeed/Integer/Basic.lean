set_option autoImplicit false

/-!
Integers of any size, in two's complement.

An integer is a list of 32-bit words, least significant first, that goes on
forever with a fill word: all zeros, or all ones if the integer is negative.
It is canonical if its last explicit word is not the fill word, so that every
integer has one canonical form. Every operation ends in `make`, which drops
the words that repeat the fill.
-/

namespace CallByNeed

structure Integer where
  words : List UInt32
  negative : Bool
  deriving DecidableEq, Hashable

/-- The number that words denote, least significant first. -/
def wordsToNat : List UInt32 → Nat
  | [] => 0
  | w :: ws => w.toNat + 0x100000000 * wordsToNat ws

@[simp] theorem wordsToNat_append (as bs : List UInt32) :
    wordsToNat (as ++ bs) = wordsToNat as + wordsToNat bs <<< (32 * as.length) := by
  induction as with
  | nil => simp [wordsToNat]
  | cons a as ih =>
    have split : 32 * (a :: as).length = 32 * as.length + 32 := by simp; omega
    rw [List.cons_append, wordsToNat, wordsToNat, ih, split, Nat.shiftLeft_add]
    omega

theorem wordsToNat_lt (ws : List UInt32) : wordsToNat ws < 1 <<< (32 * ws.length) := by
  induction ws with
  | nil => simp [wordsToNat]
  | cons w ws ih =>
    have bound := w.toNat_lt
    have split : 32 * (w :: ws).length = 32 * ws.length + 32 := by simp; omega
    rw [wordsToNat, split, Nat.shiftLeft_add]
    omega

@[simp] theorem wordsToNat_replicate_zero (n : Nat) : wordsToNat (List.replicate n 0) = 0 := by
  induction n with
  | zero => rfl
  | succ n ih => simp [List.replicate_succ, wordsToNat, ih]

theorem wordsToNat_replicate_ones (n : Nat) :
    wordsToNat (List.replicate n 0xFFFFFFFF) + 1 = 1 <<< (32 * n) := by
  induction n with
  | zero => rfl
  | succ n ih =>
    rw [List.replicate_succ, wordsToNat, Nat.mul_succ, Nat.shiftLeft_add, ← ih]
    simp
    omega

namespace Integer

/-- The word that stands beyond the explicit ones. -/
def fillWord (negative : Bool) : UInt32 := if negative then 0xFFFFFFFF else 0

def fill (a : Integer) : UInt32 := fillWord a.negative

/-- What words and a sign denote in two's complement, canonical or not. -/
def denote (words : List UInt32) (negative : Bool) : Int :=
  wordsToNat words - (if negative then 1 <<< (32 * words.length) else 0 : Nat)

def toInt (a : Integer) : Int := denote a.words a.negative

@[simp] theorem denote_append_fill (ws : List UInt32) (negative : Bool) (n : Nat) :
    denote (ws ++ List.replicate n (fillWord negative)) negative = denote ws negative := by
  cases negative with
  | false => simp [denote, fillWord]
  | true =>
    have ones := wordsToNat_replicate_ones n
    have split : 32 * (ws ++ List.replicate n (fillWord true)).length
        = 32 * n + 32 * ws.length := by simp; omega
    rw [denote, denote, split, Nat.shiftLeft_add, wordsToNat_append, ← ones]
    simp only [fillWord, if_true, Nat.shiftLeft_eq, Nat.add_mul]
    omega

/-- No explicit word repeats the fill at the end. -/
def Canonical (a : Integer) : Prop := a.words.getLast? ≠ some a.fill

instance (a : Integer) : Decidable a.Canonical :=
  inferInstanceAs (Decidable (_ ≠ _))

/-- The words without those at the end that equal `fill`. -/
def trim (fill : UInt32) : List UInt32 → List UInt32
  | [] => []
  | w :: ws =>
    match trim fill ws with
    | [] => if w = fill then [] else [w]
    | kept => w :: kept

theorem getLast?_trim (fill : UInt32) (ws : List UInt32) : (trim fill ws).getLast? ≠ some fill := by
  induction ws with
  | nil => simp [trim]
  | cons w ws ih =>
    rw [trim]
    split
    · split
      · simp
      · simpa using by assumption
    · next kept => rwa [List.getLast?_cons_of_ne_nil kept]

/-- What `trim` drops is a run of the fill. -/
theorem exists_trim_append (fill : UInt32) (ws : List UInt32) :
    ∃ n, ws = trim fill ws ++ List.replicate n fill := by
  induction ws with
  | nil => exact ⟨0, rfl⟩
  | cons w ws ih =>
    obtain ⟨n, hn⟩ := ih
    rw [trim]
    split
    · next empty =>
      rw [empty] at hn
      split
      · next same => exact ⟨n + 1, by rw [same, List.replicate_succ, List.nil_append, hn]; simp⟩
      · exact ⟨n, by simpa using hn⟩
    · exact ⟨n, by rw [List.cons_append, ← hn]⟩

def make (words : List UInt32) (negative : Bool) : Integer :=
  ⟨trim (fillWord negative) words, negative⟩

@[simp]
theorem canonical_make (ws : List UInt32) (negative : Bool) : (make ws negative).Canonical :=
  getLast?_trim _ ws

@[simp] theorem toInt_make (ws : List UInt32) (negative : Bool) :
    (make ws negative).toInt = denote ws negative := by
  obtain ⟨n, hn⟩ := exists_trim_append (fillWord negative) ws
  conv => rhs; rw [hn]
  exact (denote_append_fill _ negative n).symm

/-- The top bit of the last word decides the sign; no words are zero. -/
def ofWords (words : List UInt32) : Integer :=
  make words (words.getLast?.any fun top => 0x80000000 ≤ top.toNat)

def ofInt32 (n : Int32) : Integer := make [n.toUInt32] (n < 0)

def ofUInt32 (n : UInt32) : Integer := make [n] false

def ofInt64 (n : Int64) : Integer :=
  if n.toInt32.toInt64 = n then ofInt32 n.toInt32
  else make [n.toUInt64.toUInt32, (n.toUInt64 >>> 32).toUInt32] (n < 0)

def ofUInt64 (n : UInt64) : Integer := make [n.toUInt32, (n >>> 32).toUInt32] false

def zero : Integer := ofInt32 0

def one : Integer := ofInt32 1

instance : Inhabited Integer := ⟨zero⟩

/-- Any word of the infinite sequence. -/
def wordAt (a : Integer) (i : Nat) : UInt32 := a.words.getD i a.fill

/-- The first `n` words, for `n` at least the number of explicit ones. -/
def padded (a : Integer) (n : Nat) : List UInt32 :=
  a.words ++ List.replicate (n - a.words.length) a.fill

@[simp] theorem length_padded (a : Integer) {n : Nat} (h : a.words.length ≤ n) :
    (a.padded n).length = n := by
  simp [padded, h]

/-- The words that padding adds do not change what is denoted. -/
@[simp] theorem denote_padded (a : Integer) (n : Nat) : denote (a.padded n) a.negative = a.toInt :=
  denote_append_fill _ _ _

/-- The number of words that `a` and `b` need together. -/
def width (a b : Integer) : Nat := max a.words.length b.words.length

def isZero (a : Integer) : Bool := !a.negative && a.words.isEmpty

def isOdd (a : Integer) : Bool := a.wordAt 0 % 2 == 1

def bitsOfWord (w : UInt32) : Nat := if w = 0 then 0 else w.toNat.log2 + 1

/-- The number of significant bits of an integer that is not negative. -/
def bitLength (a : Integer) : Nat :=
  match a.words.getLast? with
  | none => 0
  | some top => 32 * (a.words.length - 1) + bitsOfWord top

/-- Compares words of one length; the most significant difference decides. -/
def compareWords : List UInt32 → List UInt32 → Ordering
  | a :: as, b :: bs => (compareWords as bs).then (compare a b)
  | _, _ => .eq

/-- The sign decides first, then the unsigned words from the top. -/
protected def compare (a b : Integer) : Ordering :=
  match a.negative, b.negative with
  | true, false => .lt
  | false, true => .gt
  | _, _ => compareWords (a.padded (width a b)) (b.padded (width a b))

instance : Ord Integer := ⟨Integer.compare⟩

/-- Equality of the infinite sequences. -/
def equal (a b : Integer) : Bool :=
  a.negative == b.negative && a.padded (width a b) == b.padded (width a b)

def signum (a : Integer) : Integer :=
  match compare a zero with
  | .gt => one
  | .lt => ofInt32 (-1)
  | .eq => zero

end Integer

end CallByNeed
