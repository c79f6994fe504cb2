import CallByNeed.Integer.Div

set_option autoImplicit false

/-!
Numerals in a radix from 2 to 36. Digits are `0` to `9` and then letters; either
case is read and lower case is written. A numeral may start with a minus sign.
-/

namespace CallByNeed.Integer

def isRadix (radix : UInt32) : Bool := 2 ≤ radix && radix ≤ 36

/-- The value of a digit below the radix. -/
def digitValue? (radix : UInt32) (c : Char) : Option Nat :=
  let value? :=
    if '0' ≤ c ∧ c ≤ '9' then some (c.toNat - '0'.toNat)
    else if 'a' ≤ c ∧ c ≤ 'z' then some (c.toNat - 'a'.toNat + 10)
    else if 'A' ≤ c ∧ c ≤ 'Z' then some (c.toNat - 'A'.toNat + 10)
    else none
  value?.filter (· < radix.toNat)

def digitChar (value : Nat) : Char :=
  if value < 10 then Char.ofNat ('0'.toNat + value) else Char.ofNat ('a'.toNat + (value - 10))

/-- Digits read since the last full group: their value, the power of the radix that
makes room for them, and their number. -/
structure Group where
  value : Nat := 0
  power : Nat := 1
  size : Nat := 0

def Group.push (radix : Nat) (group : Group) (digit : Nat) : Group :=
  ⟨group.value * radix + digit, group.power * radix, group.size + 1⟩

/-- The integer with the digits of the group after those of `result`. -/
def Group.appendTo (group : Group) (result : Integer) : Integer :=
  result * ofUInt64 (UInt64.ofNat group.power) + ofUInt64 (UInt64.ofNat group.value)

/-- Reads digit values into `result`, eight at a time. -/
def ofDigits (radix : Nat) : (result : Integer) → Group → List Nat → Integer
  | result, group, [] => if group.size = 0 then result else group.appendTo result
  | result, group, digit :: digits =>
    let next := group.push radix digit
    if next.size = 8 then ofDigits radix (next.appendTo result) {} digits
    else ofDigits radix result next digits

/-- The values of all digits, or the first character that is none. -/
def digitValues (radix : UInt32) : List Char → Except Error (List Nat)
  | [] => .ok []
  | c :: cs =>
    match digitValue? radix c with
    | none => .error (.invalidDigit c radix)
    | some value => (digitValues radix cs).map (value :: ·)

def parse (text : String) (radix : UInt32) : Except Error Integer := do
  if !isRadix radix then throw (.radixOutOfRange radix)
  let chars := text.toList
  if chars.isEmpty then throw .emptyNumber
  let negative := chars.head? == some '-'
  let digits := if negative then chars.tail else chars
  if digits.contains '-' then throw .interiorMinus
  if digits.isEmpty then throw .emptyNumber
  let values ← digitValues radix digits
  let magnitude := ofDigits radix.toNat zero {} values
  return if negative then -magnitude else magnitude

/-- The number of digits that are written at once. -/
def groupDigits : Nat := 6

/-- The groups of a positive integer, least significant first. The fuel bounds their
number. -/
def groups (power : Integer) : (fuel : Nat) → Integer → List UInt32
  | 0, _ => []
  | fuel + 1, a =>
    let next := quotPositive a power
    let group := (a - next * power).wordAt 0
    if next.isZero then [group] else group :: groups power fuel next

/-- The digits of a number, least significant first, and none for zero. The fuel bounds
their number. -/
def digitsOf (radix : Nat) : (fuel : Nat) → Nat → List Char
  | 0, _ => []
  | fuel + 1, n =>
    if n = 0 then [] else digitChar (n % radix) :: digitsOf radix fuel (n / radix)

/-- The digits of one group, with zeros in front up to the width. There is at least one. -/
def writeGroup (radix width : Nat) (group : UInt32) : List Char :=
  let digits := digitsOf radix 32 group.toNat
  (digits ++ List.replicate (max width 1 - digits.length) '0').reverse

/-- The groups from the most significant one, which has no zeros in front. -/
def writeGroups (radix : Nat) : List UInt32 → List Char
  | [] => []
  | top :: rest => writeGroup radix 0 top ++ rest.flatMap (writeGroup radix groupDigits)

/-- The numeral of a positive integer. -/
def writePositive (radix : UInt32) (a : Integer) : String :=
  let power := ofUInt32 (UInt32.ofNat (Nat.pow radix.toNat groupDigits))
  String.ofList (writeGroups radix.toNat (groups power (a.bitLength + 1) a).reverse)

/-- The numeral in a radix that is in range. -/
def write (radix : UInt32) (a : Integer) : String :=
  if a.isZero then "0"
  else if a.negative then "-" ++ writePositive radix (-a)
  else writePositive radix a

def toText (a : Integer) (radix : UInt32) : Except Error String :=
  if isRadix radix then .ok (write radix a) else .error (.radixOutOfRange radix)

instance : ToString Integer := ⟨write 10⟩

end CallByNeed.Integer
