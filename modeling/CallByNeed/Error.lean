import CallByNeed.Text.Quoted

set_option autoImplicit false

/-!
The ways in which a computation fails. Each cause has a code, a title and a
text; `render` puts the three on one line.
-/

namespace CallByNeed

inductive Error where
  | divisionByZero
  | radixOutOfRange (radix : UInt32)
  | emptyNumber
  | interiorMinus
  | invalidDigit (digit : Char) (radix : UInt32)
  | blackHole
  | emptyMVar
  | fullMVar
  | wrongArity (operation : String) (expected got : Nat)
  | wrongType (operation expected got : String)
  | user (message : String)
  deriving DecidableEq

namespace Error

def code : Error → String
  | .divisionByZero => "E1008"
  | .radixOutOfRange _ => "E1020"
  | .emptyNumber | .interiorMinus | .invalidDigit .. => "E1021"
  | .blackHole => "E1030"
  | .emptyMVar => "E1031"
  | .fullMVar => "E1032"
  | .wrongArity .. => "E1000"
  | .wrongType .. => "E1004"
  | .user _ => "E1099"

def title : Error → String
  | .divisionByZero => "DIVISION BY ZERO"
  | .radixOutOfRange _ => "RADIX OUT OF RANGE"
  | .emptyNumber | .interiorMinus | .invalidDigit .. => "NUMBER FORMAT"
  | .blackHole => "BLACK HOLE"
  | .emptyMVar => "EMPTY MVAR"
  | .fullMVar => "FULL MVAR"
  | .wrongArity .. => "WRONG NUMBER OF ARGUMENTS"
  | .wrongType .. => "RUNTIME TYPE ERROR"
  | .user _ => "USER ERROR"

def message : Error → String
  | .divisionByZero => "division by zero"
  | .radixOutOfRange radix => s!"radix out of range: {radix.toNat}"
  | .emptyNumber => "number format error: empty string"
  | .interiorMinus => "number format error: interior \"-\" character"
  | .invalidDigit digit radix =>
    "number format error: invalid digit " ++ Text.quoteChar digit ++ s!" for radix {radix.toNat}"
  | .blackHole => "infinite loop detected (black hole)"
  | .emptyMVar => "attempted to take empty MVar"
  | .fullMVar => "attempted to put full MVar"
  | .wrongArity operation expected got =>
    s!"primop {operation} expects {expected} arguments, got {got}"
  | .wrongType operation expected got => s!"primop {operation} expected {expected}, got {got}"
  | .user message => message

def render (e : Error) : String := s!"error[{e.code}]: {e.title}: {e.message}"

end Error

end CallByNeed
