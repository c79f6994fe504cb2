import CallByNeed.Json.Wire
import CallByNeed.PrimOp.Compute

set_option autoImplicit false

/-!
The calculator's command line as a function from arguments to what is printed
and the exit code.
-/

namespace CallByNeed.Command

structure Outcome where
  exitCode : Nat
  stdout : String
  stderr : String
  deriving DecidableEq

def helpLines : List String :=
  ["lazyrt calculator",
   "",
   "Usage:",
   "  lazyrt bigint <a> <op> <b>",
   "  lazyrt int64 <a> <op> <b>",
   "  lazyrt word64 <a> <op> <b>",
   "  lazyrt bigint <op> <a>",
   "  lazyrt words <integer>",
   "",
   "Binary ops:",
   "  + - * quot rem div mod quotRem divMod and or xor shl shr cmp eq",
   "Unary ops:",
   "  neg abs signum not",
   "",
   "Flags:",
   "  --trace            Log every force and application (RUST_LOG=trace)",
   "  --stats            Print evaluation counters after the run",
   "  --radix <n>        Output radix for integer results (2..=36, default 10)",
   ""]

def help : String := String.join (helpLines.map (· ++ "\n"))

/-- The counters of a run without thunks and closures. -/
def stats : String :=
  "thunks: created=0 forced=0 memo_hits=0 | closures=0 calls: exact=0 partial=0 over=0\n"

/-- The kinds of numbers that the calculator knows. -/
inductive Family where
  | integer
  | int64
  | word64
  deriving DecidableEq

namespace Family

def name : Family → String
  | .integer => "integer"
  | .int64 => "int64"
  | .word64 => "word64"

/-- Operands are decimal; those of 64 bits keep their low bits. -/
def parse (family : Family) (text : String) : Except Error Scalar := do
  let n ← Integer.parse text 10
  return match family with
    | .integer => .integer n
    | .int64 => .long n.toLong
    | .word64 => .ulong n.toULong

/-- The end of the name of the primitive operation that a symbol stands for. -/
def suffix (family : Family) : String → String
  | "+" => "Add"
  | "-" => "Sub"
  | "*" => "Mul"
  | "quot" => "Quot"
  | "rem" => "Rem"
  | "div" => "Div"
  | "mod" => "Mod"
  | "quotRem" => "QuotRem"
  | "divMod" => "DivMod"
  | "and" => "And"
  | "or" => "Or"
  | "xor" => "Xor"
  | "shl" => "ShiftL"
  | "shr" =>
    match family with
    | .integer => "ShiftR"
    | .int64 => "ShiftRA"
    | .word64 => "ShiftRL"
  | "cmp" => "Compare"
  | "eq" => "Eq"
  | "neg" => "Negate"
  | "abs" => "Abs"
  | "signum" => "Signum"
  | "not" => if family = .integer then "Complement" else "Not"
  | other => other

/-- The operation of this family with this number of operands. -/
def lookup (family : Family) (symbol : String) (arity : Nat) : Except Error PrimOp :=
  match (PrimOp.ofName? (family.name ++ family.suffix symbol)).filter (·.arity = arity) with
  | some op => .ok op
  | none => .error (.user s!"unknown {family.name} operator `{symbol}`")

end Family

def takesBitCount : PrimOp → Bool
  | .integerShiftL | .integerShiftR | .int64ShiftL | .int64ShiftRA | .int64ShiftRL
  | .word64ShiftL | .word64ShiftRL => true
  | _ => false

def usage : Error := .user "expected `<a> <op> <b>` or `<op> <a>`"

/-- The right operand: a bit count keeps the low word of its numeral. -/
def rightOperand (family : Family) (op : PrimOp) (text : String) : Except Error Scalar :=
  if takesBitCount op then do return .int ((← Integer.parse text 10).wordAt 0).toInt32
  else family.parse text

/-- The operator is looked up first, then the right operand is read, then the left. -/
def calculate (family : Family) : List String → Except Error Literal
  | [symbol, a] => do
    let op ← family.lookup symbol 1
    let x ← family.parse a
    op.execute [.scalar x]
  | [a, symbol, b] => do
    let op ← family.lookup symbol 2
    let y ← rightOperand family op b
    let x ← family.parse a
    op.execute [.scalar x, .scalar y]
  | _ => .error usage

/-- The words of an integer as JSON. -/
def words : List String → Except Error Literal
  | [text] => do return .scalar (.str (← Integer.parse text 10).toJson)
  | _ => .error usage

def renderScalar (radix : UInt32) : Scalar → String
  | .integer n => n.write radix
  | .str s => s
  | s => s.display

mutual

/-- Integers are written in the radix, and the fields of a constructor side by side. -/
def render (radix : UInt32) : Literal → String
  | .scalar s => renderScalar radix s
  | .data _ fields => " ".intercalate (renderAll radix fields)

def renderAll (radix : UInt32) : List Literal → List String
  | [] => []
  | field :: fields => render radix field :: renderAll radix fields

end

/-- A number without sign, or with a plus sign, that is a radix. -/
def readRadix (text : String) : Option UInt32 := do
  let chars := text.toList
  let digits := if chars.head? = some '+' then chars.tail else chars
  if digits.isEmpty || !digits.all Char.isDigit then none
  let n := digits.foldl (fun n c => n * 10 + (c.toNat - '0'.toNat)) 0
  if 2 ≤ n ∧ n ≤ 36 then some (UInt32.ofNat n) else none

/-- Takes the radix flags out of the arguments. The last one counts, and the first
faulty one is reported. -/
def extractRadix (radix : UInt32) : List String → Except String (UInt32 × List String)
  | [] => .ok (radix, [])
  | "--radix" :: [] => .error "Usage: lazyrt <command> --radix <n>\n"
  | "--radix" :: value :: rest =>
    match readRadix value with
    | some radix => extractRadix radix rest
    | none => .error "Error: --radix expects an integer between 2 and 36.\n"
  | arg :: rest => (extractRadix radix rest).map fun (radix, kept) => (radix, arg :: kept)

def isHelp (command : String) : Bool :=
  command == "help" || command == "--help" || command == "-h"

/-- What a command computes; nothing if there is no such command. -/
def evaluate (command : String) (args : List String) : Option (Except Error Literal) :=
  match command with
  | "bigint" => some (calculate .integer args)
  | "integer" => some (calculate .integer args)
  | "int64" => some (calculate .int64 args)
  | "word64" => some (calculate .word64 args)
  | "words" => some (words args)
  | _ => none

/-- Runs a command whose flags have been taken out. -/
def runCommand (radix : UInt32) (showStats : Bool) : List String → Outcome
  | [] => ⟨0, help, ""⟩
  | command :: args =>
    if isHelp command then ⟨0, help, ""⟩
    else
      match evaluate command args with
      | none => ⟨2, help, s!"Error: unknown command `{command}`.\n"⟩
      | some (.error e) => ⟨1, "", e.render ++ "\n"⟩
      | some (.ok value) => ⟨0, render radix value ++ "\n", if showStats then stats else ""⟩

def run (args : List String) : Outcome :=
  let kept := args.filter fun arg => arg != "--trace" && arg != "--stats"
  match extractRadix 10 kept with
  | .error text => ⟨0, "", text⟩
  | .ok (radix, rest) => runCommand radix (args.contains "--stats") rest

end CallByNeed.Command
