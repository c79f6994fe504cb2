import CallByNeed.Floating.Bits
import CallByNeed.Integer.Add
import CallByNeed.Word

set_option autoImplicit false

/-!
Integers and doubles. Both directions go word by word with the powers of
`2 ^ 32` as doubles, and each step rounds.
-/

namespace CallByNeed.Integer

/-- `count` numbers from `power` on, each `2 ^ 32` times the one before. -/
def powersFrom (power : Double) : (count : Nat) → List Double
  | 0 => []
  | count + 1 => power :: powersFrom (power * wordPower) count

/-- One and the next powers of `2 ^ 32` up to the first that is infinite. -/
def wordPowers : List Double := powersFrom 1 33

/-- The words of a double that is not negative. -/
def wordsOfDouble (value : Double) : List UInt32 :=
  (wordPowers.takeWhile fun power => power.le value).map fun power => Word.ofDouble (value / power)

/-- Rounds toward zero; what is not finite becomes zero. -/
def ofDouble (value : Double) : Integer :=
  if !value.isFinite then zero
  else if value.lt 0 then -make (wordsOfDouble (-value)) false
  else make (wordsOfDouble value) false

/-- Adds `value` and words times the powers from `power` on, rounding each time. -/
def sumOfWords (value power : Double) : List UInt32 → Double
  | [] => value
  | w :: ws => sumOfWords (value + .ofInt w.toNat * power) (power * wordPower) ws

def toDouble (a : Integer) : Double :=
  if a.negative then -sumOfWords 0 1 (-a).words else sumOfWords 0 1 a.words

/-- The quotient of the two doubles. -/
def ratio (numerator denominator : Integer) : Double :=
  numerator.toDouble / denominator.toDouble

/-- The mantissa with its sign, and the exponent. -/
def decodeDouble (value : Double) : Integer × Int32 :=
  let parts := value.decodeDouble
  let mantissa := make [parts.mantissaLow, parts.mantissaHigh] false
  (if parts.sign < 0 then -mantissa else mantissa, parts.exponent)

end CallByNeed.Integer
