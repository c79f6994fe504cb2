import CallByNeed.Long.Arith

set_option autoImplicit false

/-!
Unsigned 64-bit integers as two 32-bit words, and the bridges between the
integers of any size and those of 64 bits. Sums, products and left shifts have
the bits of the signed ones; quotients go through integers of any size.
-/

namespace CallByNeed

structure ULong where
  low : UInt32
  high : UInt32
  deriving DecidableEq

namespace Integer

/-- The low 64 bits. -/
def toLong (a : Integer) : Long := ⟨a.wordAt 0, a.wordAt 1⟩

def ofLong (x : Long) : Integer := ofWords [x.low, x.high]

/-- The low 64 bits. -/
def toULong (a : Integer) : ULong := ⟨a.wordAt 0, a.wordAt 1⟩

def ofULong (x : ULong) : Integer := make [x.low, x.high] false

end Integer

namespace ULong

def zero : ULong := ⟨0, 0⟩

def one : ULong := ⟨1, 0⟩

def greatest : ULong := ⟨0xFFFFFFFF, 0xFFFFFFFF⟩

instance : Inhabited ULong := ⟨zero⟩

/-- The number denoted. -/
def toNat (x : ULong) : Nat := x.high.toNat * 0x100000000 + x.low.toNat

/-- The number below `2 ^ 64` that is congruent to `n`. -/
def ofNat (n : Nat) : ULong := ⟨UInt32.ofNat n, UInt32.ofNat (n / 0x100000000)⟩

def ofUInt32 (n : UInt32) : ULong := ⟨n, 0⟩

def toLong (x : ULong) : Long := ⟨x.low, x.high⟩

def ofLong (x : Long) : ULong := ⟨x.low, x.high⟩

def toDouble (x : ULong) : Double :=
  .ofInt x.high.toNat * wordPower + .ofInt x.low.toNat

def isZero (x : ULong) : Bool := x.low == 0 && x.high == 0

protected def add (x y : ULong) : ULong := ofLong (x.toLong + y.toLong)

instance : Add ULong := ⟨ULong.add⟩

protected def sub (x y : ULong) : ULong := ofLong (x.toLong - y.toLong)

instance : Sub ULong := ⟨ULong.sub⟩

protected def mul (x y : ULong) : ULong := ofLong (x.toLong * y.toLong)

instance : Mul ULong := ⟨ULong.mul⟩

def quot (x y : ULong) : Except Error ULong := do
  return (← (Integer.ofULong x).quot (Integer.ofULong y)).toULong

def rem (x y : ULong) : Except Error ULong := do
  return (← (Integer.ofULong x).rem (Integer.ofULong y)).toULong

def and (x y : ULong) : ULong := ⟨x.low &&& y.low, x.high &&& y.high⟩

def or (x y : ULong) : ULong := ⟨x.low ||| y.low, x.high ||| y.high⟩

def xor (x y : ULong) : ULong := ⟨x.low ^^^ y.low, x.high ^^^ y.high⟩

def complement (x : ULong) : ULong := ⟨~~~x.low, ~~~x.high⟩

/-- The amount counts modulo 64. -/
def shiftLeft (x : ULong) (bits : UInt32) : ULong := ofLong (x.toLong.shiftLeft bits)

/-- The amount counts modulo 64. -/
def shiftRight (x : ULong) (bits : UInt32) : ULong := ofLong (x.toLong.shiftRightUnsigned bits)

protected def compare (x y : ULong) : Ordering :=
  (compare x.high y.high).then (compare x.low y.low)

instance : Ord ULong := ⟨ULong.compare⟩

instance : ToString ULong := ⟨fun x => toString x.toNat⟩

end ULong

end CallByNeed
