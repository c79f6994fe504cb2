import CallByNeed.Integer.Bits
import CallByNeed.Word

set_option autoImplicit false

/-!
Sum, negation and difference. The carry goes from limb to limb, and the sum
runs over one word more than the longer operand has, so that the last word
holds the sign.
-/

namespace CallByNeed.Integer

open Word (lowLimb highLimb)

/-- Adds words of one length limb by limb, from the bottom up; the last carry is
dropped. -/
def addWords : (carry : Nat) → List UInt32 → List UInt32 → List UInt32
  | carry, a :: as, b :: bs =>
    let low := carry + lowLimb a + lowLimb b
    let high := low / 0x10000 + highLimb a + highLimb b
    Word.ofLimbs high low :: addWords (high / 0x10000) as bs
  | _, _, _ => []

protected def add (a b : Integer) : Integer :=
  let length := width a b + 1
  ofWords (addWords 0 (a.padded length) (b.padded length))

instance : Add Integer := ⟨Integer.add⟩

protected def neg (a : Integer) : Integer := a.complement + one

instance : Neg Integer := ⟨Integer.neg⟩

protected def sub (a b : Integer) : Integer := a + -b

instance : Sub Integer := ⟨Integer.sub⟩

def abs (a : Integer) : Integer := if a.negative then -a else a

end CallByNeed.Integer
