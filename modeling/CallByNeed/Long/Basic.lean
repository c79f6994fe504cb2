import CallByNeed.Word

set_option autoImplicit false

/-!
Signed 64-bit integers as two 32-bit words, in two's complement. Arithmetic
wraps; the least number is its own negation.
-/

namespace CallByNeed

structure Long where
  low : UInt32
  high : UInt32
  deriving DecidableEq

namespace Long

open Word (lowLimb highLimb)

def zero : Long := ⟨0, 0⟩

def one : Long := ⟨1, 0⟩

def negOne : Long := ⟨0xFFFFFFFF, 0xFFFFFFFF⟩

def greatest : Long := ⟨0xFFFFFFFF, 0x7FFFFFFF⟩

def least : Long := ⟨0, 0x80000000⟩

instance : Inhabited Long := ⟨zero⟩

/-- The integer denoted. -/
def toInt (x : Long) : Int := x.high.toInt32.toInt * 0x100000000 + x.low.toNat

/-- The number with these bits that is congruent to `n`. -/
def ofInt (n : Int) : Long := ⟨UInt32.ofInt n, UInt32.ofInt (n / 0x100000000)⟩

def ofInt32 (n : Int32) : Long := ⟨n.toUInt32, if n < 0 then 0xFFFFFFFF else 0⟩

def isZero (x : Long) : Bool := x.high == 0 && x.low == 0

def isNegative (x : Long) : Bool := Word.isNegative x.high

def isOdd (x : Long) : Bool := x.low % 2 == 1

def complement (x : Long) : Long := ⟨~~~x.low, ~~~x.high⟩

/-- Adds limb by limb; the last carry is dropped. -/
protected def add (x y : Long) : Long :=
  let c0 := lowLimb x.low + lowLimb y.low
  let c1 := c0 / 0x10000 + highLimb x.low + highLimb y.low
  let c2 := c1 / 0x10000 + lowLimb x.high + lowLimb y.high
  let c3 := c2 / 0x10000 + highLimb x.high + highLimb y.high
  ⟨Word.ofLimbs c1 c0, Word.ofLimbs c3 c2⟩

instance : Add Long := ⟨Long.add⟩

protected def neg (x : Long) : Long := if x = least then least else x.complement + one

instance : Neg Long := ⟨Long.neg⟩

protected def sub (x y : Long) : Long := x + -y

instance : Sub Long := ⟨Long.sub⟩

/-- With equal signs the sign of the difference decides. -/
protected def compare (x y : Long) : Ordering :=
  if x = y then .eq
  else
    match x.isNegative, y.isNegative with
    | true, false => .lt
    | false, true => .gt
    | _, _ => if (x - y).isNegative then .lt else .gt

instance : Ord Long := ⟨Long.compare⟩

def and (x y : Long) : Long := ⟨x.low &&& y.low, x.high &&& y.high⟩

def or (x y : Long) : Long := ⟨x.low ||| y.low, x.high ||| y.high⟩

def xor (x y : Long) : Long := ⟨x.low ^^^ y.low, x.high ^^^ y.high⟩

/-- The amount counts modulo 64. -/
def shiftLeft (x : Long) (bits : UInt32) : Long :=
  let bits := bits % 64
  if bits = 0 then x
  else if bits < 32 then ⟨x.low <<< bits, (x.high <<< bits) ||| (x.low >>> (32 - bits))⟩
  else ⟨0, x.low <<< (bits - 32)⟩

/-- The amount counts modulo 64, and the sign is kept. -/
def shiftRight (x : Long) (bits : UInt32) : Long :=
  let bits := bits % 64
  let arithmetic (w n : UInt32) : UInt32 := (w.toInt32 >>> n.toInt32).toUInt32
  if bits = 0 then x
  else if bits < 32 then
    ⟨(x.low >>> bits) ||| (x.high <<< (32 - bits)), arithmetic x.high bits⟩
  else ⟨arithmetic x.high (bits - 32), if x.isNegative then 0xFFFFFFFF else 0⟩

/-- The amount counts modulo 64, and zeros come in at the top. -/
def shiftRightUnsigned (x : Long) (bits : UInt32) : Long :=
  let bits := bits % 64
  if bits = 0 then x
  else if bits < 32 then ⟨(x.low >>> bits) ||| (x.high <<< (32 - bits)), x.high >>> bits⟩
  else ⟨x.high >>> (bits - 32), 0⟩

instance : ToString Long := ⟨fun x => toString x.toInt⟩

end Long

end CallByNeed
