import CallByNeed.Integer.Div
import CallByNeed.Long.Basic

set_option autoImplicit false

/-!
Products and quotients of signed 64-bit integers, and their doubles.

The quotient of two positive numbers grows by rounds, each from an estimate as
a double. The estimate is multiplied back modulo `2 ^ 64` and lowered while the
product is negative or too large.
-/

namespace CallByNeed.Long

open Word (lowLimb highLimb)

def limitDouble : Double := .ofInt (0x8000000000000000)

/-- The pair of words of a double that is not negative and below the limit. -/
def ofSmallDouble (value : Double) : Long :=
  ⟨Word.ofDouble (value % wordPower), Word.ofDouble (value / wordPower)⟩

/-- Rounds toward zero and stops at the ends of the range; what is not finite
becomes zero. -/
def ofDouble (value : Double) : Long :=
  if !value.isFinite then zero
  else if value.le (-limitDouble) then least
  else if limitDouble.le (value + 1) then greatest
  else if value.lt 0 then
    -(if limitDouble.le (-value + 1) then greatest else ofSmallDouble (-value))
  else ofSmallDouble value

def toDouble (x : Long) : Double :=
  .ofInt x.high.toInt32.toInt * wordPower + .ofInt x.low.toNat

/-- The product by limbs. Limb products of weight `2 ^ 64` and more are left out. -/
def mulLimbs (x y : Long) : Long :=
  let a0 := lowLimb x.low
  let a1 := highLimb x.low
  let a2 := lowLimb x.high
  let a3 := highLimb x.high
  let b0 := lowLimb y.low
  let b1 := highLimb y.low
  let b2 := lowLimb y.high
  let b3 := highLimb y.high
  let c0 := a0 * b0
  let c1 := c0 / 0x10000 + a1 * b0
  let d1 := c1 % 0x10000 + a0 * b1
  let c2 := c1 / 0x10000 + d1 / 0x10000 + a2 * b0
  let d2 := c2 % 0x10000 + a1 * b1
  let e2 := d2 % 0x10000 + a0 * b2
  let c3 := c2 / 0x10000 + d2 / 0x10000 + e2 / 0x10000 + (a3 * b0 + a2 * b1 + a1 * b2 + a0 * b3)
  ⟨Word.ofLimbs d1 c0, Word.ofLimbs c3 e2⟩

/-- Below `2 ^ 24`, where products are exact as doubles. -/
def isSmallFactor (x : Long) : Bool := compare x ⟨0x1000000, 0⟩ == .lt

def mulPositive (x y : Long) : Long :=
  if x.isSmallFactor && y.isSmallFactor then ofDouble (x.toDouble * y.toDouble)
  else mulLimbs x y

protected def mul (x y : Long) : Long :=
  if x.isZero || y.isZero then zero
  else if x = least then (if y.isOdd then least else zero)
  else if y = least then (if x.isOdd then least else zero)
  else
    match x.isNegative, y.isNegative with
    | true, true => mulPositive (-x) (-y)
    | true, false => -mulPositive (-x) y
    | false, true => -mulPositive x (-y)
    | false, false => mulPositive x y

instance : Mul Long := ⟨Long.mul⟩

/-- An estimate of the quotient, at least one. -/
def estimate (dividend divisor : Long) : Double :=
  (dividend.toDouble / divisor.toDouble).floor.max 1

/-- The number of bits of the integer part, as far as 64 bits hold it. -/
def estimateBits (approx : Double) : Nat :=
  let whole := min approx.toInt.toNat 0xFFFFFFFFFFFFFFFF
  if whole = 0 then 0 else whole.log2 + 1

def correctionStep (approx : Double) : Double :=
  .twoPow (correctionExponent (estimateBits approx))

/-- Lowers the estimate by steps until its product with the divisor is neither
negative nor above the dividend, and returns both. An estimate that falls below one
becomes one. The fuel bounds the steps. -/
def lowerEstimate (dividend divisor : Long) (step : Double) :
    (fuel : Nat) → Double → Long × Long
  | 0, _ => (one, divisor)
  | fuel + 1, approx =>
    let part := ofDouble approx
    let product := part * divisor
    if product.isNegative || compare product dividend == .gt then
      let next := approx - step
      if next.lt 1 then (one, divisor) else lowerEstimate dividend divisor step fuel next
    else (part, product)

/-- One round: a part of the quotient and its product with the divisor. -/
def quotientRound (dividend divisor : Long) : Long × Long :=
  let approx := estimate dividend divisor
  lowerEstimate dividend divisor (correctionStep approx) (approx.toInt.toNat + 1) approx

/-- Adds rounds to `quotient` until less than the divisor remains. The fuel bounds
the rounds. -/
def quotientRounds (divisor : Long) : (fuel : Nat) → (quotient remainder : Long) → Long
  | 0, quotient, _ => quotient
  | fuel + 1, quotient, remainder =>
    if compare remainder divisor == .lt then quotient
    else
      let (part, product) := quotientRound remainder divisor
      quotientRounds divisor fuel (quotient + part) (remainder - product)

/-- The quotient of a number that is not negative by a positive one. A round takes at
least one off the remainder, so the dividend bounds the rounds. -/
def quotPositive (x y : Long) : Long := quotientRounds y x.toInt.toNat zero x

/-- The quotient of a dividend other than the least by a divisor other than zero. -/
def quotOrdinary (x y : Long) : Long :=
  if x.isZero || y == least then zero
  else
    match x.isNegative, y.isNegative with
    | true, true => quotPositive (-x) (-y)
    | true, false => -quotPositive (-x) y
    | false, true => -quotPositive x (-y)
    | false, false => quotPositive x y

/-- The quotient of the least number, which has no magnitude of its own: it is halved,
divided and doubled, and what is left is divided again. -/
def quotLeast (y : Long) : Long :=
  if y == one || y == negOne then least
  else if y == least then one
  else
    let approx := (quotOrdinary (least.shiftRight 1) y).shiftLeft 1
    if approx.isZero then (if y.isNegative then one else negOne)
    else approx + quotOrdinary (least - y * approx) y

/-- The quotient, rounded toward zero. -/
def quot (x y : Long) : Except Error Long :=
  if y.isZero then .error .divisionByZero
  else if x = least then .ok (quotLeast y)
  else .ok (quotOrdinary x y)

def rem (x y : Long) : Except Error Long := do
  return x - (← x.quot y) * y

/-- The quotient, rounded down. -/
def div (x y : Long) : Except Error Long := do
  let q ← x.quot y
  let r := x - q * y
  return if x.isNegative != y.isNegative && !r.isZero then q - one else q

/-- The remainder with the sign of the divisor. -/
def mod (x y : Long) : Except Error Long := do
  let r ← x.rem y
  return if x.isNegative != y.isNegative && !r.isZero then r + y else r

end CallByNeed.Long
