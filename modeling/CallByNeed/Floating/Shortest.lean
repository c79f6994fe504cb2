import CallByNeed.Floating.Basic

set_option autoImplicit false

/-!
The shortest decimal that stands for a floating-point number.

The reals that round to a number form an interval around it, with its ends if
the significand is even. Among the decimals with the fewest digits inside that
interval the nearest is taken, and of two equally near the greater. All
comparisons are between whole numbers.
-/

namespace CallByNeed

/-- The number `digits * 10 ^ exponent`. -/
structure Decimal where
  digits : Nat
  exponent : Int
  deriving DecidableEq

/-- A positive rational number. -/
structure Ratio where
  num : Nat
  den : Nat

namespace Ratio

def le (x y : Ratio) : Bool := x.num * y.den ≤ y.num * x.den

def lt (x y : Ratio) : Bool := x.num * y.den < y.num * x.den

/-- The number of digits before the decimal point; minus the number of zeros after
the point if there are none. -/
def decimalPoint (x : Ratio) : Int :=
  if x.den ≤ x.num then (Nat.toDigits 10 (x.num / x.den)).length
  else 1 - (Nat.toDigits 10 ((x.den - 1) / x.num)).length

end Ratio

namespace Decimal

def toRatio (d : Decimal) : Ratio :=
  if 0 ≤ d.exponent then ⟨d.digits * Nat.pow 10 d.exponent.toNat, 1⟩
  else ⟨d.digits, Nat.pow 10 (-d.exponent).toNat⟩

/-- The greatest multiple of `10 ^ exponent` that is not above. -/
def floorAt (x : Ratio) (exponent : Int) : Decimal :=
  if 0 ≤ exponent then ⟨x.num / (x.den * Nat.pow 10 exponent.toNat), exponent⟩
  else ⟨x.num * Nat.pow 10 (-exponent).toNat / x.den, exponent⟩

/-- Drops zeros at the end, at most `fuel` of them. -/
def trim : (fuel : Nat) → Decimal → Decimal
  | 0, d => d
  | fuel + 1, d =>
    if d.digits % 10 = 0 then trim fuel ⟨d.digits / 10, d.exponent + 1⟩ else d

end Decimal

/-- The reals between two bounds, with or without them. -/
structure Interval where
  lower : Ratio
  upper : Ratio
  closed : Bool

def Interval.contains (i : Interval) (x : Ratio) : Bool :=
  if i.closed then i.lower.le x && x.le i.upper else i.lower.lt x && x.lt i.upper

namespace Format

variable (f : Format)

/-- The value of a number of quanta. -/
def value (quanta : Nat) : Ratio := ⟨quanta, 1 <<< f.scale⟩

/-- The reals that round to a positive magnitude. Below a power of two the spacing
is half of that above, unless it is the least spacing. -/
def roundingInterval (quanta : Nat) : Interval :=
  let gap := f.gap quanta
  let below := if 0 < gap ∧ quanta = 1 <<< quanta.log2 then 1 <<< gap else 1 <<< (gap + 1)
  { lower := ⟨4 * quanta - below, 4 <<< f.scale⟩
    upper := ⟨4 * quanta + 1 <<< (gap + 1), 4 <<< f.scale⟩
    closed := quanta >>> gap % 2 = 0 }

end Format

/-- Of two neighbours on one decimal grid, the one inside the interval that is nearer
to `x`, if either is inside. -/
def nearestInside (i : Interval) (x : Ratio) (exponent : Int) : Option Decimal :=
  let down := Decimal.floorAt x exponent
  let up : Decimal := ⟨down.digits + 1, exponent⟩
  let middle := (⟨2 * down.digits + 1, exponent⟩ : Decimal).toRatio
  match i.contains down.toRatio, i.contains up.toRatio with
  | true, true => if middle.le ⟨2 * x.num, x.den⟩ then some up else some down
  | true, false => some down
  | false, true => some up
  | false, false => none

/-- The shortest decimal of a positive magnitude with up to `most` digits. -/
def shortestWithin (f : Format) (quanta most : Nat) : Option Decimal :=
  let x := f.value quanta
  let found := (List.range most).findSome? fun (count : Nat) =>
    nearestInside (f.roundingInterval quanta) x (x.decimalPoint - (count + 1 : Nat))
  found.map (Decimal.trim most)

/-- The shortest decimal of a positive double. Seventeen digits are always enough. -/
def shortestDouble (quanta : Nat) : Decimal :=
  (shortestWithin .double quanta 17).getD ⟨0, 0⟩

end CallByNeed
