set_option autoImplicit false

/-!
Reading JSON texts of a known shape.

A reader takes what it wants off the front of the characters and returns the
rest, or nothing if the text has another shape. Where a value is of no interest
it is skipped, and then only its grammar is checked.
-/

namespace CallByNeed.Json

abbrev Reader (α : Type) := List Char → Option (α × List Char)

variable {α β : Type}

def isBlank (c : Char) : Bool := c == ' ' || c == '\t' || c == '\n' || c == '\r'

def skipBlanks (cs : List Char) : List Char := cs.dropWhile isBlank

/-- Takes one given character, after blanks. -/
def expect (c : Char) (cs : List Char) : Option (List Char) :=
  match skipBlanks cs with
  | [] => none
  | d :: rest => if d = c then some rest else none

def hexValue? (c : Char) : Option Nat :=
  if '0' ≤ c ∧ c ≤ '9' then some (c.toNat - '0'.toNat)
  else if 'a' ≤ c ∧ c ≤ 'f' then some (c.toNat - 'a'.toNat + 10)
  else if 'A' ≤ c ∧ c ≤ 'F' then some (c.toNat - 'A'.toNat + 10)
  else none

/-- Four hexadecimal digits. -/
def readUnit : Reader Nat
  | a :: b :: c :: d :: rest => do
    let n := 4096 * (← hexValue? a) + 256 * (← hexValue? b) + 16 * (← hexValue? c) + (← hexValue? d)
    return (n, rest)
  | _ => none

/-- The character that a short escape stands for. -/
def shortEscape? : Char → Option Char
  | '"' => some '"'
  | '\\' => some '\\'
  | '/' => some '/'
  | 'b' => some '\x08'
  | 'f' => some '\x0c'
  | 'n' => some '\n'
  | 'r' => some '\r'
  | 't' => some '\t'
  | _ => none

/-- The rest of a code escape. A unit of the first surrogate range needs one of the
second after it, and none of the second stands alone. -/
def readCode : Reader Char := fun cs => do
  let (first, rest) ← readUnit cs
  if 0xDC00 ≤ first ∧ first ≤ 0xDFFF then none
  else if 0xD800 ≤ first ∧ first ≤ 0xDBFF then
    match rest with
    | '\\' :: 'u' :: rest => do
      let (second, rest) ← readUnit rest
      if 0xDC00 ≤ second ∧ second ≤ 0xDFFF then
        return (Char.ofNat (0x10000 + (first - 0xD800) * 0x400 + (second - 0xDC00)), rest)
      else none
    | _ => none
  else return (Char.ofNat first, rest)

/-- The characters of a string up to its closing quote. The fuel bounds their number. -/
def readChars : (fuel : Nat) → Reader (List Char)
  | 0, _ => none
  | fuel + 1, cs =>
    match cs with
    | [] => none
    | '"' :: rest => some ([], rest)
    | '\\' :: 'u' :: rest => do
      let (c, rest) ← readCode rest
      let (text, rest) ← readChars fuel rest
      return (c :: text, rest)
    | '\\' :: escape :: rest => do
      let c ← shortEscape? escape
      let (text, rest) ← readChars fuel rest
      return (c :: text, rest)
    | c :: rest => do
      if c < ' ' then none
      let (text, rest) ← readChars fuel rest
      return (c :: text, rest)

def readString : Reader (List Char) := fun cs => do
  let rest ← expect '"' cs
  readChars (rest.length + 1) rest

/-- Skips a string up to its closing quote. A code escape needs its four digits only. -/
def skipChars : (fuel : Nat) → List Char → Option (List Char)
  | 0, _ => none
  | fuel + 1, cs =>
    match cs with
    | [] => none
    | '"' :: rest => some rest
    | '\\' :: 'u' :: rest => do skipChars fuel (← readUnit rest).2
    | '\\' :: escape :: rest => do
      let _ ← shortEscape? escape
      skipChars fuel rest
    | c :: rest => if c < ' ' then none else skipChars fuel rest

def readDigits (cs : List Char) : List Char × List Char := cs.span Char.isDigit

/-- The digits of a whole number: a zero, or digits that do not start with one. -/
def readWhole : Reader (List Char) := fun cs =>
  match readDigits cs with
  | ([], _) => none
  | ('0' :: _ :: _, _) => none
  | (digits, rest) => some (digits, rest)

def skipFraction : List Char → Option (List Char)
  | '.' :: rest =>
    match readDigits rest with
    | ([], _) => none
    | (_, rest) => some rest
  | cs => some cs

def skipExponent (cs : List Char) : Option (List Char) :=
  match cs with
  | c :: rest =>
    if c = 'e' ∨ c = 'E' then
      let rest := match rest with
        | '+' :: rest => rest
        | '-' :: rest => rest
        | rest => rest
      match readDigits rest with
      | ([], _) => none
      | (_, rest) => some rest
    else some cs
  | [] => some []

def skipNumber (cs : List Char) : Option (List Char) := do
  let (_, rest) ← readWhole cs
  skipExponent (← skipFraction rest)

mutual

/-- Skips any value. The fuel bounds the nesting and the number of items. -/
def skipValue : (fuel : Nat) → List Char → Option (List Char)
  | 0, _ => none
  | fuel + 1, cs =>
    match skipBlanks cs with
    | 'n' :: 'u' :: 'l' :: 'l' :: rest => some rest
    | 't' :: 'r' :: 'u' :: 'e' :: rest => some rest
    | 'f' :: 'a' :: 'l' :: 's' :: 'e' :: rest => some rest
    | '"' :: rest => skipChars (rest.length + 1) rest
    | '[' :: rest =>
      match skipBlanks rest with
      | ']' :: rest => some rest
      | rest => skipItems fuel rest
    | '\x7b' :: rest =>
      match skipBlanks rest with
      | '\x7d' :: rest => some rest
      | rest => skipMembers fuel rest
    | '-' :: rest => skipNumber rest
    | rest => skipNumber rest

/-- Skips the items of an array up to its end. -/
def skipItems : (fuel : Nat) → List Char → Option (List Char)
  | 0, _ => none
  | fuel + 1, cs => do
    let rest ← skipValue fuel cs
    match skipBlanks rest with
    | ',' :: rest => skipItems fuel rest
    | ']' :: rest => some rest
    | _ => none

/-- Skips the members of an object up to its end. -/
def skipMembers : (fuel : Nat) → List Char → Option (List Char)
  | 0, _ => none
  | fuel + 1, cs => do
    let rest ← expect '"' cs
    let rest ← skipChars (rest.length + 1) rest
    let rest ← skipValue fuel (← expect ':' rest)
    match skipBlanks rest with
    | ',' :: rest => skipMembers fuel rest
    | '\x7d' :: rest => some rest
    | _ => none

end

/-- A number without fraction and exponent. A zero with a minus sign is not one. -/
def readInt : Reader Int := fun cs =>
  let negative := (skipBlanks cs).head? == some '-'
  let body := if negative then (skipBlanks cs).tail else skipBlanks cs
  match readWhole body with
  | none => none
  | some (digits, rest) =>
    let magnitude := digits.foldl (fun n c => n * 10 + (c.toNat - '0'.toNat)) 0
    match rest with
    | '.' :: _ => none
    | 'e' :: _ => none
    | 'E' :: _ => none
    | rest =>
      if negative then (if magnitude = 0 then none else some (-magnitude, rest))
      else some (magnitude, rest)

def readInt32 : Reader Int32 := fun cs => do
  let (n, rest) ← readInt cs
  if -0x80000000 ≤ n ∧ n < 0x80000000 then return (Int32.ofInt n, rest) else none

/-- The items of an array up to its end. The fuel bounds their number. -/
def readItems (read : Reader α) : (fuel : Nat) → Reader (List α)
  | 0, _ => none
  | fuel + 1, cs => do
    let (item, rest) ← read cs
    match skipBlanks rest with
    | ',' :: rest => do
      let (items, rest) ← readItems read fuel rest
      return (item :: items, rest)
    | ']' :: rest => return ([item], rest)
    | _ => none

def readArray (read : Reader α) : Reader (List α) := fun cs => do
  let rest ← expect '[' cs
  match skipBlanks rest with
  | ']' :: rest => return ([], rest)
  | rest => readItems read (rest.length + 1) rest

/-- Two named fields and their readers. -/
structure Fields (α β : Type) where
  firstName : String
  secondName : String
  readFirst : Reader α
  readSecond : Reader β

namespace Fields

variable (fields : Fields α β)

/-- The members of an object up to its end: both fields once, in any order, and other
members, which are skipped. The fuel bounds their number. -/
def readMembers : (fuel : Nat) → Option α → Option β → Reader (α × β)
  | 0, _, _, _ => none
  | fuel + 1, first?, second?, cs => do
    let (name, rest) ← readString cs
    let rest ← expect ':' rest
    let next (first? : Option α) (second? : Option β) (rest : List Char) :
        Option ((α × β) × List Char) :=
      match skipBlanks rest with
      | ',' :: rest => readMembers fuel first? second? rest
      | '\x7d' :: rest => do return ((← first?, ← second?), rest)
      | _ => none
    if name = fields.firstName.toList then
      if first?.isSome then none
      let (first, rest) ← fields.readFirst rest
      next (some first) second? rest
    else if name = fields.secondName.toList then
      if second?.isSome then none
      let (second, rest) ← fields.readSecond rest
      next first? (some second) rest
    else next first? second? (← skipValue (rest.length + 1) rest)

/-- An object with the two fields, or an array of the two values. -/
def read : Reader (α × β) := fun cs =>
  match skipBlanks cs with
  | '\x7b' :: rest => readMembers fields (rest.length + 1) none none rest
  | '[' :: rest => do
    let (first, rest) ← fields.readFirst rest
    let (second, rest) ← fields.readSecond (← expect ',' rest)
    return ((first, second), ← expect ']' rest)
  | _ => none

end Fields

/-- The value of a whole text. -/
def ofText? (read : Reader α) (text : String) : Option α := do
  let (value, rest) ← read text.toList
  if (skipBlanks rest).isEmpty then return value else none

end CallByNeed.Json
