import CallByNeed.Integer.OfDouble

set_option autoImplicit false

/-!
Products.

Small factors are multiplied as doubles, which is exact. Otherwise each product
of two 16-bit limbs is deposited in a row of slots, and what a slot holds above
16 bits moves to the next slot at once. A last sweep clears the carries that
are left.
-/

namespace CallByNeed.Integer

open Word (lowLimb highLimb)

/-- Slot `i` counts multiples of `2 ^ (16 * i)`. -/
abbrev Slots := Array Nat

namespace Slots

/-- The number that the slots hold together. -/
def toNat (slots : Slots) : Nat := slots.foldr (fun slot rest => slot + 0x10000 * rest) 0

/-- Moves what slot `i` holds above 16 bits into the next slot. -/
def carry (slots : Slots) (i : Nat) : Slots :=
  let overflow := slots.getD i 0 / 0x10000
  (slots.modify (i + 1) (· + overflow)).modify i (· % 0x10000)

/-- Adds to slot `i` and carries out of it. -/
def deposit (slots : Slots) (i amount : Nat) : Slots :=
  carry (slots.modify i (· + amount)) i

/-- Carries out of every slot but the last, from the bottom up. -/
def sweep (slots : Slots) : Slots :=
  (List.range (slots.size - 1)).foldl carry slots

/-- The words made of the first `2 * n` slots. -/
def words (slots : Slots) (n : Nat) : List UInt32 :=
  (List.range n).map fun i =>
    Word.ofLimbs (slots.getD (2 * i + 1) 0) (slots.getD (2 * i) 0)

end Slots

/-- The four limb products of word `i` and word `j`, each with its slot. -/
def wordDeposits (a b : UInt32) (i j : Nat) : List (Nat × Nat) :=
  let base := 2 * i + 2 * j
  [(base, lowLimb a * lowLimb b),
   (base + 1, highLimb a * lowLimb b),
   (base + 1, lowLimb a * highLimb b),
   (base + 2, highLimb a * highLimb b)]

/-- All limb products in the order in which they are deposited. -/
def deposits (as bs : List UInt32) : List (Nat × Nat) :=
  as.zipIdx.flatMap fun (a, i) => bs.zipIdx.flatMap fun (b, j) => wordDeposits a b i j

/-- The slots for factors of these lengths, before any deposit. -/
def emptySlots (as bs : List UInt32) : Slots :=
  Array.replicate (2 * (as.length + bs.length) + 1) 0

def depositAll (slots : Slots) (amounts : List (Nat × Nat)) : Slots :=
  amounts.foldl (fun slots (i, amount) => slots.deposit i amount) slots

/-- The product of two positive integers by limbs. -/
def mulLimbs (a b : Integer) : Integer :=
  let slots := (depositAll (emptySlots a.words b.words) (deposits a.words b.words)).sweep
  make (slots.words (a.words.length + b.words.length)) false

/-- Below `2 ^ 24`, where products are exact as doubles. -/
def isSmallFactor (a : Integer) : Bool :=
  !a.negative && decide (a.words.length ≤ 1) && decide ((a.wordAt 0).toNat < 0x1000000)

def mulPositive (a b : Integer) : Integer :=
  if a.isSmallFactor && b.isSmallFactor then ofDouble (a.toDouble * b.toDouble)
  else mulLimbs a b

protected def mul (a b : Integer) : Integer :=
  if a.isZero || b.isZero then zero
  else
    match a.negative, b.negative with
    | true, true => mulPositive (-a) (-b)
    | true, false => -mulPositive (-a) b
    | false, true => -mulPositive a (-b)
    | false, false => mulPositive a b

instance : Mul Integer := ⟨Integer.mul⟩

end CallByNeed.Integer
