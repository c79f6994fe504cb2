import CallByNeed.Floating.Bits
import CallByNeed.PrimOp.Table
import CallByNeed.Scalar

set_option autoImplicit false

/-!
What the primitive operations compute on evaluated operands. Operands are
checked from left to right before anything is computed.
-/

namespace CallByNeed

/-- What a primitive operation sees of a value. -/
inductive Operand where
  | scalar (s : Scalar)
  | data (tag : UInt32)
  | other (typeName : String)

namespace Operand

def typeName : Operand → String
  | .scalar s => s.typeName
  | .data _ => "Data"
  | .other typeName => typeName

def tag? : Operand → Option UInt32
  | .scalar s => s.tag?
  | .data tag => some tag
  | .other _ => none

end Operand

def Literal.operand : Literal → Operand
  | .scalar s => .scalar s
  | .data tag _ => .data tag

namespace PrimOp

def typeError (op : PrimOp) (expected : String) (got : Operand) : Error :=
  .wrongType op.name expected got.typeName

def arityError (op : PrimOp) (got : Nat) : Error := .wrongArity op.name op.arity got

/-- Reads an operand as a value of type `α`. -/
abbrev Reader (α : Type) := PrimOp → Operand → Except Error α

namespace Reader

def integer : Reader Integer
  | _, .scalar (.integer n) => .ok n
  | op, got => .error (op.typeError "Integer" got)

def long : Reader Long
  | _, .scalar (.long n) => .ok n
  | op, got => .error (op.typeError "Int64" got)

def ulong : Reader ULong
  | _, .scalar (.ulong n) => .ok n
  | op, got => .error (op.typeError "Word64" got)

def int : Reader Int32
  | _, .scalar (.int n) => .ok n
  | op, got => .error (op.typeError "Int" got)

def double : Reader Double
  | _, .scalar (.double x) => .ok x
  | op, got => .error (op.typeError "Double" got)

def str : Reader String
  | _, .scalar (.str s) => .ok s
  | op, got => .error (op.typeError "String" got)

/-- A number of bits, which may not be negative. -/
def bits : Reader Nat := fun op got => do
  let n ← int op got
  if n < 0 then throw (op.typeError "non-negative Int" got)
  return n.toInt.toNat

/-- A shift amount, of which the operation takes the low bits. -/
def amount : Reader UInt32 := fun op got => do
  return (← int op got).toUInt32

/-- A negative radix is reported as zero. -/
def radix : Reader UInt32 := fun op got => do
  let n ← int op got
  if n < 0 then throw (.radixOutOfRange 0)
  return n.toUInt32

/-- A machine word, signed or not. -/
def word : Reader UInt32
  | _, .scalar (.word n) => .ok n
  | op, got => (int op got).map Int32.toUInt32

def tag : Reader UInt32 := fun op got =>
  match got.tag? with
  | some tag => .ok tag
  | none => .error (op.typeError "Data" got)

end Reader

variable {α β : Type}

def unary (op : PrimOp) (args : List Operand) (read : Reader α)
    (f : α → Except Error Literal) : Except Error Literal :=
  match args with
  | [a] => do f (← read op a)
  | args => .error (op.arityError args.length)

def binary (op : PrimOp) (args : List Operand) (first : Reader α) (second : Reader β)
    (f : α → β → Except Error Literal) : Except Error Literal :=
  match args with
  | [a, b] => do
    let x ← first op a
    let y ← second op b
    f x y
  | args => .error (op.arityError args.length)

def ordering : Ordering → Scalar
  | .lt => .int (-1)
  | .eq => .int 0
  | .gt => .int 1

def flag (b : Bool) : Scalar := .int (if b then 1 else 0)

def ok (s : Scalar) : Except Error Literal := .ok (.scalar s)

def okPair (first second : Scalar) : Except Error Literal := .ok (.pair first second)

open Reader in
/-- The result on evaluated operands. -/
def compute (op : PrimOp) (args : List Operand) : Except Error Literal :=
  match op with
  | .integerAdd => binary op args integer integer fun a b => ok (.integer (a + b))
  | .integerSub => binary op args integer integer fun a b => ok (.integer (a - b))
  | .integerMul => binary op args integer integer fun a b => ok (.integer (a * b))
  | .integerQuot => binary op args integer integer fun a b => do ok (.integer (← a.quot b))
  | .integerRem => binary op args integer integer fun a b => do ok (.integer (← a.rem b))
  | .integerDiv => binary op args integer integer fun a b => do ok (.integer (← a.div b))
  | .integerMod => binary op args integer integer fun a b => do ok (.integer (← a.mod b))
  | .integerQuotRem => binary op args integer integer fun a b => do
    let (q, r) ← a.quotRem b
    okPair (.integer q) (.integer r)
  | .integerDivMod => binary op args integer integer fun a b => do
    let (q, r) ← a.divMod b
    okPair (.integer q) (.integer r)
  | .integerNegate => unary op args integer fun a => ok (.integer (-a))
  | .integerAbs => unary op args integer fun a => ok (.integer a.abs)
  | .integerSignum => unary op args integer fun a => ok (.integer a.signum)
  | .integerAnd => binary op args integer integer fun a b => ok (.integer (a.and b))
  | .integerOr => binary op args integer integer fun a b => ok (.integer (a.or b))
  | .integerXor => binary op args integer integer fun a b => ok (.integer (a.xor b))
  | .integerComplement => unary op args integer fun a => ok (.integer a.complement)
  | .integerShiftL => binary op args integer bits fun a n => ok (.integer (a.shiftLeft n))
  | .integerShiftR => binary op args integer bits fun a n => ok (.integer (a.shiftRight n))
  | .integerCompare => binary op args integer integer fun a b => ok (ordering (compare a b))
  | .integerEq => binary op args integer integer fun a b => ok (.bool (a.equal b))
  | .integerToString => binary op args integer radix fun a r => do ok (.str (← a.toText r))
  | .integerFromString => binary op args str radix fun s r => do
    ok (.integer (← Integer.parse s r))
  | .integerToInt => unary op args integer fun a => ok (.int (a.wordAt 0).toInt32)
  | .integerFromInt => unary op args int fun n => ok (.integer (.ofInt32 n))
  | .integerToDouble => unary op args integer fun a => ok (.double a.toDouble)
  | .integerFromDouble => unary op args double fun x => ok (.integer (.ofDouble x))
  | .integerToInt64 => unary op args integer fun a => ok (.long a.toLong)
  | .integerFromInt64 => unary op args long fun x => ok (.integer (.ofLong x))
  | .integerToWord64 => unary op args integer fun a => ok (.ulong a.toULong)
  | .integerFromWord64 => unary op args ulong fun x => ok (.integer (.ofULong x))
  | .integerShorten => binary op args integer bits fun a n => ok (.integer (a.shorten n))
  | .integerEncodeDouble => binary op args integer int fun a n =>
    ok (.double (a.toDouble.encode n.toInt))
  | .integerDecodeDouble => unary op args double fun x =>
    let (mantissa, exponent) := Integer.decodeDouble x
    okPair (.integer mantissa) (.int exponent)
  | .integerFromRat => binary op args integer integer fun a b => ok (.double (a.ratio b))
  | .int64Add => binary op args long long fun x y => ok (.long (x + y))
  | .int64Sub => binary op args long long fun x y => ok (.long (x - y))
  | .int64Mul => binary op args long long fun x y => ok (.long (x * y))
  | .int64Quot => binary op args long long fun x y => do ok (.long (← x.quot y))
  | .int64Rem => binary op args long long fun x y => do ok (.long (← x.rem y))
  | .int64Div => binary op args long long fun x y => do ok (.long (← x.div y))
  | .int64Mod => binary op args long long fun x y => do ok (.long (← x.mod y))
  | .int64Negate => unary op args long fun x => ok (.long (-x))
  | .int64And => binary op args long long fun x y => ok (.long (x.and y))
  | .int64Or => binary op args long long fun x y => ok (.long (x.or y))
  | .int64Xor => binary op args long long fun x y => ok (.long (x.xor y))
  | .int64Not => unary op args long fun x => ok (.long x.complement)
  | .int64ShiftL => binary op args long amount fun x n => ok (.long (x.shiftLeft n))
  | .int64ShiftRA => binary op args long amount fun x n => ok (.long (x.shiftRight n))
  | .int64ShiftRL => binary op args long amount fun x n => ok (.long (x.shiftRightUnsigned n))
  | .int64Compare => binary op args long long fun x y => ok (ordering (compare x y))
  | .int64Eq => binary op args long long fun x y => ok (.bool (x == y))
  | .int64FromInt => unary op args int fun n => ok (.long (.ofInt32 n))
  | .int64ToInt => unary op args long fun x => ok (.int x.low.toInt32)
  | .int64FromDouble => unary op args double fun x => ok (.long (.ofDouble x))
  | .int64ToDouble => unary op args long fun x => ok (.double x.toDouble)
  | .word64Add => binary op args ulong ulong fun x y => ok (.ulong (x + y))
  | .word64Sub => binary op args ulong ulong fun x y => ok (.ulong (x - y))
  | .word64Mul => binary op args ulong ulong fun x y => ok (.ulong (x * y))
  | .word64Quot => binary op args ulong ulong fun x y => do ok (.ulong (← x.quot y))
  | .word64Rem => binary op args ulong ulong fun x y => do ok (.ulong (← x.rem y))
  | .word64And => binary op args ulong ulong fun x y => ok (.ulong (x.and y))
  | .word64Or => binary op args ulong ulong fun x y => ok (.ulong (x.or y))
  | .word64Xor => binary op args ulong ulong fun x y => ok (.ulong (x.xor y))
  | .word64Not => unary op args ulong fun x => ok (.ulong x.complement)
  | .word64ShiftL => binary op args ulong amount fun x n => ok (.ulong (x.shiftLeft n))
  | .word64ShiftRL => binary op args ulong amount fun x n => ok (.ulong (x.shiftRight n))
  | .word64Compare => binary op args ulong ulong fun x y => ok (ordering (compare x y))
  | .word64Eq => binary op args ulong ulong fun x y => ok (.bool (x == y))
  | .word64ToInt64 => unary op args ulong fun x => ok (.long x.toLong)
  | .word64FromInt64 => unary op args long fun x => ok (.ulong (.ofLong x))
  | .intMul => binary op args int int fun a b => ok (.int (a * b))
  | .intAddC => binary op args int int fun a b =>
    let (sum, overflow) := Word.addOverflow a b
    okPair (.int sum) (flag overflow)
  | .intSubC => binary op args int int fun a b =>
    let (difference, overflow) := Word.subOverflow a b
    okPair (.int difference) (flag overflow)
  | .intQuotRem => binary op args int int fun a b => do
    let (q, r) ← Word.quotRem a b
    okPair (.int q) (.int r)
  | .wordPopCnt => unary op args word fun w => ok (.int (Word.popCount w).toInt32)
  | .decodeFloat => unary op args double fun x =>
    let (mantissa, exponent) := (x.convert : Single).decodeSingle
    okPair (.int mantissa) (.int exponent)
  | .dataToTag => unary op args tag fun t => ok (.int t.toInt32)

/-- Checks the number of operands and computes. -/
def execute (op : PrimOp) (args : List Operand) : Except Error Literal :=
  if args.length = op.arity then op.compute args else .error (op.arityError args.length)

end PrimOp

end CallByNeed
