import CallByNeed.Integer.Basic

set_option autoImplicit false

/-!
Bitwise operations and shifts. They work word by word and treat the fill word
like any other, so they act on the infinite two's complement expansion.
-/

namespace CallByNeed.Integer

def complement (a : Integer) : Integer := make (a.words.map (~~~ ·)) !a.negative

/-- Combines words pairwise with `word` and the signs with `sign`. -/
def zipWords (word : UInt32 → UInt32 → UInt32) (sign : Bool → Bool → Bool) (a b : Integer) :
    Integer :=
  make (List.zipWith word (a.padded (width a b)) (b.padded (width a b)))
    (sign a.negative b.negative)

def and (a b : Integer) : Integer := zipWords (· &&& ·) Bool.and a b

def or (a b : Integer) : Integer := zipWords (· ||| ·) Bool.or a b

def xor (a b : Integer) : Integer := zipWords (· ^^^ ·) Bool.xor a b

/-- Applies `f` to each word and the word after it. -/
def neighbours (f : UInt32 → UInt32 → UInt32) (words : List UInt32) : List UInt32 :=
  List.zipWith f words words.tail

/-- Multiplies by a power of two. -/
def shiftLeft (a : Integer) (bits : Nat) : Integer :=
  let low := List.replicate (bits / 32) 0
  let r := UInt32.ofNat (bits % 32)
  if r = 0 then make (low ++ a.words) a.negative
  else
    let shifted := neighbours (fun lower upper => (upper <<< r) ||| (lower >>> (32 - r)))
      (0 :: a.words ++ [a.fill])
    make (low ++ shifted) a.negative

/-- Divides by a power of two, rounding down. -/
def shiftRight (a : Integer) (bits : Nat) : Integer :=
  let high := a.words.drop (bits / 32)
  let r := UInt32.ofNat (bits % 32)
  if r = 0 then make high a.negative
  else
    let shifted := neighbours (fun lower upper => (lower >>> r) ||| (upper <<< (32 - r)))
      (high ++ [a.fill])
    make shifted a.negative

/-- Keeps the low `bits` bits and extends the sign from the topmost of them. -/
def shorten (a : Integer) (bits : Nat) : Integer :=
  if bits = 0 then zero
  else
    let index := (bits - 1) / 32
    let topBit := UInt32.ofNat ((bits - 1) % 32)
    let low := (a.padded index).take index
    let sign := (1 : UInt32) <<< topBit
    let mask := sign ||| (sign - 1)
    let top := a.wordAt index &&& mask
    if top &&& sign = 0 then make (low ++ [top]) false
    else make (low ++ [top ||| ~~~mask]) true

end CallByNeed.Integer
