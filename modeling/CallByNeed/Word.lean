import CallByNeed.Error
import CallByNeed.Floating.Basic

set_option autoImplicit false

/-!
Machine words of 32 bits: their 16-bit limbs, and arithmetic that wraps.
-/

namespace CallByNeed

/-- The weight of a word in the next one up, as a double. -/
def wordPower : Double := .ofInt (0x100000000)

namespace Word

def lowLimb (w : UInt32) : Nat := w.toNat % 0x10000

def highLimb (w : UInt32) : Nat := w.toNat / 0x10000

/-- The word with these limbs, of which only the low 16 bits count. -/
def ofLimbs (high low : Nat) : UInt32 :=
  UInt32.ofNat (high % 0x10000 * 0x10000 + low % 0x10000)

@[simp] theorem ofLimbs_limbs (w : UInt32) : ofLimbs (highLimb w) (lowLimb w) = w := by
  have bound := w.toNat_lt
  rw [ofLimbs, lowLimb, highLimb, Nat.mod_eq_of_lt (by omega), Nat.mod_mod,
    Nat.mul_comm, Nat.div_add_mod]
  simp

/-- Drops the fraction and wraps around; zero for what is not finite. -/
def ofDouble (value : Double) : UInt32 :=
  if !value.isFinite then 0 else (value.trunc.remEuclid wordPower).toUInt32

def isNegative (w : UInt32) : Bool := 0x80000000 ≤ w.toNat

/-- The sum and whether it left the signed range. -/
def addOverflow (a b : Int32) : Int32 × Bool :=
  (a + b, (a + b).toInt != a.toInt + b.toInt)

/-- The difference and whether it left the signed range. -/
def subOverflow (a b : Int32) : Int32 × Bool :=
  (a - b, (a - b).toInt != a.toInt - b.toInt)

/-- The number of bits that are set. -/
def popCount (w : UInt32) : UInt32 :=
  UInt32.ofNat ((List.range 32).countP fun i => w.toNat.testBit i)

/-- Quotient rounded toward zero, and remainder. The least word divided by minus one
is itself. -/
def quotRem (a b : Int32) : Except Error (Int32 × Int32) :=
  if b = 0 then .error .divisionByZero else .ok (a / b, a % b)

end Word

end CallByNeed
