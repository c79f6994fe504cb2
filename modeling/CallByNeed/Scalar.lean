import CallByNeed.Floating.Text
import CallByNeed.Integer.Numeral
import CallByNeed.Long.Unsigned

set_option autoImplicit false

/-!
Values without parts: numbers, characters and texts, their equality and their
two written forms. `display` is for readers, `debug` names the kind of value too.
-/

namespace CallByNeed

inductive Scalar where
  | unit
  | int (n : Int32)
  | word (n : UInt32)
  | double (x : Double)
  | bool (b : Bool)
  | char (c : Char)
  | str (s : String)
  | integer (n : Integer)
  | long (n : Long)
  | ulong (n : ULong)
  deriving DecidableEq

namespace Scalar

def typeName : Scalar → String
  | .unit => "Unit"
  | .int _ => "Int"
  | .word _ => "Word"
  | .double _ => "Double"
  | .bool _ => "Bool"
  | .char _ => "Char"
  | .str _ => "String"
  | .integer _ => "Integer"
  | .long _ => "Int64"
  | .ulong _ => "Word64"

/-- Truth values and the empty tuple are constructors without fields. -/
def tag? : Scalar → Option UInt32
  | .unit => some 0
  | .bool b => some (if b then 1 else 0)
  | _ => none

/-- Doubles are compared as numbers. -/
def equal : Scalar → Scalar → Bool
  | .double x, .double y => x.equal y
  | .integer a, .integer b => a.equal b
  | a, b => a == b

/-- A text stands between quotes as it is. -/
def display : Scalar → String
  | .unit => "()"
  | .int n => toString n.toInt
  | .word n => toString n.toNat
  | .double x => NumberLayout.plain.write x
  | .bool b => toString b
  | .char c => Text.quoteChar c
  | .str s => "\"" ++ s ++ "\""
  | .integer n => toString n
  | .long n => toString n
  | .ulong n => toString n

end Scalar

def Integer.debug (n : Integer) : String := s!"BigInt({n})"

def Long.debug (n : Long) : String := s!"Int64({n})"

def ULong.debug (n : ULong) : String := s!"Word64({n})"

namespace Scalar

def debug : Scalar → String
  | .unit => "Unit"
  | .int n => s!"Int({n.toInt})"
  | .word n => s!"Word({n.toNat})"
  | .double x => s!"Double({NumberLayout.structured.write x})"
  | .bool b => s!"Bool({b})"
  | .char c => s!"Char({Text.quoteChar c})"
  | .str s => s!"Str({Text.quote s})"
  | .integer n => s!"Integer({n.debug})"
  | .long n => s!"Int64({n.debug})"
  | .ulong n => s!"Word64({n.debug})"

end Scalar

/-- A value as it is written down: a scalar, or a constructor with its fields. -/
inductive Literal where
  | scalar (s : Scalar)
  | data (tag : UInt32) (fields : List Literal)

namespace Literal

def pair (first second : Scalar) : Literal := .data 0 [.scalar first, .scalar second]

end Literal

end CallByNeed
