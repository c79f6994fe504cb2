import CallByNeed.Floating.Shortest

set_option autoImplicit false

/-!
Doubles as text: the digits of the shortest decimal, laid out with a point or
with a power of ten.
-/

namespace CallByNeed

/-- How the digits of a number are laid out. -/
structure NumberLayout where
  /-- Whole numbers end in a point and a zero. -/
  pointZero : Bool
  /-- The powers of ten that are written with an exponent. -/
  scientific : Int → Bool

namespace NumberLayout

/-- Never an exponent, and whole numbers without a point. -/
def plain : NumberLayout := ⟨false, fun _ => false⟩

/-- An exponent below a ten-thousandth and from ten to the sixteenth on; whole
numbers show that they are doubles. -/
def structured : NumberLayout := ⟨true, fun power => power < -4 || 16 ≤ power⟩

def zeros (count : Nat) : List Char := List.replicate count '0'

/-- Digits with the decimal point after `point` of them. -/
def positional (layout : NumberLayout) (digits : List Char) (point : Int) : List Char :=
  if point ≤ 0 then '0' :: '.' :: zeros (-point).toNat ++ digits
  else
    let whole := digits.take point.toNat
    let fraction := digits.drop point.toNat
    let whole := whole ++ zeros (point.toNat - digits.length)
    if !fraction.isEmpty then whole ++ '.' :: fraction
    else if layout.pointZero then whole ++ ['.', '0']
    else whole

/-- One digit before the point, and the power of ten after `e`. -/
def withExponent (digits : List Char) (power : Int) : List Char :=
  let fraction := digits.drop 1
  digits.take 1 ++ (if fraction.isEmpty then [] else '.' :: fraction) ++
    'e' :: (toString power).toList

def writeDecimal (layout : NumberLayout) (d : Decimal) : List Char :=
  let digits := (toString d.digits).toList
  let point := d.exponent + digits.length
  if layout.scientific (point - 1) then withExponent digits (point - 1)
  else layout.positional digits point

def writeMagnitude (layout : NumberLayout) (quanta : Nat) : List Char :=
  if quanta = 0 then (if layout.pointZero then ['0', '.', '0'] else ['0'])
  else layout.writeDecimal (shortestDouble quanta)

def write (layout : NumberLayout) : Double → String
  | .nan .. => "NaN"
  | .infinite negative => if negative then "-inf" else "inf"
  | .finite negative quanta _ =>
    (if negative then "-" else "") ++ String.ofList (layout.writeMagnitude quanta)

end NumberLayout

end CallByNeed
