import CallByNeed.Error
import CallByNeed.Integer.Mul

set_option autoImplicit false

/-!
Quotients and remainders.

The quotient of two positive integers grows by rounds. A round estimates what
is left of it from the top 64 bits of both sides as doubles, lowers the
estimate until its product with the divisor fits, and takes that product off.
-/

namespace CallByNeed

/-- The exponent of the step by which an estimate of this many bits is lowered.
Past 48 bits an estimate has lost low bits, and a step is as large as that loss. -/
def correctionExponent (bits : Nat) : Nat := bits - 48

namespace Integer

/-- An estimate of the quotient, for a dividend that is not below the divisor. -/
def estimate (dividend divisor : Integer) : Integer :=
  let dividendShift := dividend.bitLength - 64
  let divisorShift := divisor.bitLength - 64
  let scale := dividendShift - divisorShift
  let lift := min scale 52
  let quotient := (dividend.shiftRight dividendShift).toDouble /
    (divisor.shiftRight divisorShift).toDouble
  let whole := ((quotient * .twoPow lift).floor).max 1
  (ofDouble whole).shiftLeft (scale - lift)

def correctionStep (approx : Integer) : Integer :=
  one.shiftLeft (correctionExponent approx.bitLength)

/-- Lowers the estimate by steps until its product with the divisor is at most the
dividend, and returns both. An estimate that would reach zero becomes one. The
fuel bounds the steps. -/
def lowerEstimate (dividend divisor step : Integer) : (fuel : Nat) → Integer → Integer × Integer
  | 0, _ => (one, divisor)
  | fuel + 1, approx =>
    let product := approx * divisor
    if compare product dividend = .gt then
      let next := approx - step
      if next.negative || next.isZero then (one, divisor)
      else lowerEstimate dividend divisor step fuel next
    else (approx, product)

/-- One round: a part of the quotient and its product with the divisor. -/
def quotientRound (dividend divisor : Integer) : Integer × Integer :=
  let approx := estimate dividend divisor
  lowerEstimate dividend divisor (correctionStep approx) (wordsToNat approx.words + 1) approx

/-- Adds rounds to `quotient` until less than the divisor remains. The fuel bounds
the rounds. -/
def quotientRounds (divisor : Integer) : (fuel : Nat) → (quotient remainder : Integer) → Integer
  | 0, quotient, _ => quotient
  | fuel + 1, quotient, remainder =>
    if compare remainder divisor = .lt then quotient
    else
      let (part, product) := quotientRound remainder divisor
      quotientRounds divisor fuel (quotient + part) (remainder - product)

/-- The quotient of an integer that is not negative by a positive one. A round takes
at least one off the remainder, so the dividend bounds the rounds. -/
def quotPositive (a b : Integer) : Integer :=
  quotientRounds b (wordsToNat a.words) zero a

/-- The quotient, rounded toward zero. -/
def quot (a b : Integer) : Except Error Integer :=
  if b.isZero then .error .divisionByZero
  else if a.isZero then .ok zero
  else
    match a.negative, b.negative with
    | true, true => .ok (quotPositive (-a) (-b))
    | true, false => .ok (-quotPositive (-a) b)
    | false, true => .ok (-quotPositive a (-b))
    | false, false => .ok (quotPositive a b)

/-- The quotient rounded toward zero, and the remainder that goes with it. -/
def quotRem (a b : Integer) : Except Error (Integer × Integer) := do
  let q ← a.quot b
  return (q, a - q * b)

def rem (a b : Integer) : Except Error Integer := do
  return (← a.quotRem b).2

/-- The quotient rounded down, and the remainder that goes with it. -/
def divMod (a b : Integer) : Except Error (Integer × Integer) := do
  let (q, r) ← a.quotRem b
  if a.negative != b.negative && !r.isZero then return (q - one, r + b)
  else return (q, r)

def div (a b : Integer) : Except Error Integer := do
  return (← a.divMod b).1

def mod (a b : Integer) : Except Error Integer := do
  return (← a.divMod b).2

end Integer

end CallByNeed
