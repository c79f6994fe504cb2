import CallByNeed.Command
import CallByNeed.Proofs.Bitwise
import CallByNeed.Proofs.Division
import CallByNeed.Proofs.Writing

set_option autoImplicit false

/-!
The calculator on integers of any size.

A calculation has texts for operands and an exact answer on the integers that they
stand for, unless it divides by zero. `Calculation.Result` says what is printed, and
the command line does just that, with a radix flag anywhere among its words.
-/

namespace CallByNeed.Command

open Integer (Reads FirstFault IsNumeral IsRadix IsDigit)

/-! Operators and their answers -/

/-- What a calculation gives. -/
inductive Answer where
  | number (n : Int)
  | pair (first second : Int)
  | order (o : Ordering)
  | truth (b : Bool)

inductive Unary where
  | neg | abs | signum | not

inductive Binary where
  | add | sub | mul | quot | rem | div | mod | quotRem | divMod | and | or | xor | cmp | eq

def Unary.symbol : Unary → String
  | .neg => "neg"
  | .abs => "abs"
  | .signum => "signum"
  | .not => "not"

def Unary.operation : Unary → PrimOp
  | .neg => .integerNegate
  | .abs => .integerAbs
  | .signum => .integerSignum
  | .not => .integerComplement

def Unary.value (x : Int) : Unary → Answer
  | .neg => .number (-x)
  | .abs => .number |x|
  | .signum => .number x.sign
  | .not => .number (-x - 1)

def Binary.symbol : Binary → String
  | .add => "+"
  | .sub => "-"
  | .mul => "*"
  | .quot => "quot"
  | .rem => "rem"
  | .div => "div"
  | .mod => "mod"
  | .quotRem => "quotRem"
  | .divMod => "divMod"
  | .and => "and"
  | .or => "or"
  | .xor => "xor"
  | .cmp => "cmp"
  | .eq => "eq"

def Binary.operation : Binary → PrimOp
  | .add => .integerAdd
  | .sub => .integerSub
  | .mul => .integerMul
  | .quot => .integerQuot
  | .rem => .integerRem
  | .div => .integerDiv
  | .mod => .integerMod
  | .quotRem => .integerQuotRem
  | .divMod => .integerDivMod
  | .and => .integerAnd
  | .or => .integerOr
  | .xor => .integerXor
  | .cmp => .integerCompare
  | .eq => .integerEq

/-- Division by zero has no answer. -/
def Binary.divides : Binary → Bool
  | .quot | .rem | .div | .mod | .quotRem | .divMod => true
  | _ => false

def Binary.value (x y : Int) : Binary → Answer
  | .add => .number (x + y)
  | .sub => .number (x - y)
  | .mul => .number (x * y)
  | .quot => .number (x.tdiv y)
  | .rem => .number (x.tmod y)
  | .div => .number (x.fdiv y)
  | .mod => .number (x.fmod y)
  | .quotRem => .pair (x.tdiv y) (x.tmod y)
  | .divMod => .pair (x.fdiv y) (x.fmod y)
  | .and => .number (x.land y)
  | .or => .number (x.lor y)
  | .xor => .number (x.xor y)
  | .cmp => .order (compare x y)
  | .eq => .truth (x = y)

/-! Results of operations -/

/-- A result that stands for an answer, its integers in their one form. -/
inductive Denotes : Literal → Answer → Prop where
  | number {n : Integer} : n.Canonical → Denotes (.scalar (.integer n)) (.number n.toInt)
  | pair {n m : Integer} : n.Canonical → m.Canonical →
      Denotes (.pair (.integer n) (.integer m)) (.pair n.toInt m.toInt)
  | order (o : Ordering) : Denotes (.scalar (PrimOp.ordering o)) (.order o)
  | truth (b : Bool) : Denotes (.scalar (.bool b)) (.truth b)

theorem Denotes.number_of_eq {n : Integer} {x : Int} (canonical : n.Canonical)
    (same : n.toInt = x) : Denotes (.scalar (.integer n)) (.number x) :=
  same ▸ .number canonical

theorem Denotes.pair_of_eq {n m : Integer} {x y : Int} (canonical : n.Canonical)
    (canonical' : m.Canonical) (same : n.toInt = x) (same' : m.toInt = y) :
    Denotes (.pair (.integer n) (.integer m)) (.pair x y) :=
  same ▸ same' ▸ .pair canonical canonical'

section Execute

variable {a b : Integer} (canonical : a.Canonical) (canonical' : b.Canonical)

include canonical in
theorem exists_execute_unary (op : Unary) :
    ∃ result, op.operation.execute [.scalar (.integer a)] = .ok result ∧
      Denotes result (op.value a.toInt) := by
  cases op with
  | neg => exact ⟨_, rfl, .number_of_eq (Integer.canonical_neg a) (Integer.toInt_neg a)⟩
  | abs => exact ⟨_, rfl, .number_of_eq canonical.abs (Integer.toInt_abs a)⟩
  | signum => exact ⟨_, rfl, .number_of_eq (Integer.canonical_signum a) (Integer.toInt_signum a)⟩
  | not => exact ⟨_, rfl, .number_of_eq (Integer.canonical_make _ _) (Integer.toInt_complement a)⟩

include canonical' in
theorem execute_binary_by_zero {op : Binary} (divides : op.divides = true) (isZero : b.toInt = 0) :
    op.operation.execute [.scalar (.integer a), .scalar (.integer b)] =
      .error .divisionByZero := by
  obtain ⟨quot, rem, quotRem, div, mod, divMod⟩ :=
    Integer.divisions_eq_error (a := a) canonical' isZero
  cases op with
  | quot => exact congrArg (· >>= fun q => PrimOp.ok (.integer q)) quot
  | rem => exact congrArg (· >>= fun r => PrimOp.ok (.integer r)) rem
  | div => exact congrArg (· >>= fun q => PrimOp.ok (.integer q)) div
  | mod => exact congrArg (· >>= fun r => PrimOp.ok (.integer r)) mod
  | quotRem =>
    exact congrArg (· >>= fun p => PrimOp.okPair (.integer p.1) (.integer p.2)) quotRem
  | divMod =>
    exact congrArg (· >>= fun p => PrimOp.okPair (.integer p.1) (.integer p.2)) divMod
  | _ => cases divides

include canonical canonical' in
theorem exists_execute_binary {op : Binary} (defined : op.divides = true → b.toInt ≠ 0) :
    ∃ result, op.operation.execute [.scalar (.integer a), .scalar (.integer b)] = .ok result ∧
      Denotes result (op.value a.toInt b.toInt) := by
  have truncated (nonzero : b.toInt ≠ 0) := Integer.exists_quotRem canonical canonical' nonzero
  have rounded (nonzero : b.toInt ≠ 0) := Integer.exists_divMod canonical canonical' nonzero
  cases op with
  | add => exact ⟨_, rfl, .number_of_eq (Integer.canonical_add a b) (Integer.toInt_add a b)⟩
  | sub => exact ⟨_, rfl, .number_of_eq (Integer.canonical_sub a b) (Integer.toInt_sub a b)⟩
  | mul => exact ⟨_, rfl, .number_of_eq (Integer.canonical_mul a b) (Integer.toInt_mul a b)⟩
  | and => exact ⟨_, rfl, .number_of_eq (Integer.canonical_make _ _) (Integer.toInt_and a b)⟩
  | or => exact ⟨_, rfl, .number_of_eq (Integer.canonical_make _ _) (Integer.toInt_or a b)⟩
  | xor => exact ⟨_, rfl, .number_of_eq (Integer.canonical_make _ _) (Integer.toInt_xor a b)⟩
  | cmp =>
    refine ⟨.scalar (PrimOp.ordering (compare a b)), rfl, ?_⟩
    rw [Integer.compare_eq]
    exact .order _
  | eq =>
    have same : a.equal b = decide (a.toInt = b.toInt) := by
      rw [← Bool.coe_iff_coe, Integer.equal_iff, decide_eq_true_iff]
    refine ⟨.scalar (.bool (a.equal b)), rfl, ?_⟩
    rw [same]
    exact .truth _
  | quot =>
    obtain ⟨q, r, found, foundPair, -, quotient, -⟩ := truncated (defined rfl)
    refine ⟨.scalar (.integer q), ?_, .number_of_eq (Integer.canonical_quot found) quotient⟩
    exact congrArg (· >>= fun q => PrimOp.ok (.integer q)) found
  | rem =>
    obtain ⟨q, r, -, foundPair, found, -, remainder, -⟩ := truncated (defined rfl)
    refine ⟨.scalar (.integer r), ?_,
      .number_of_eq (Integer.canonical_quotRem foundPair).2 remainder⟩
    exact congrArg (· >>= fun r => PrimOp.ok (.integer r)) found
  | quotRem =>
    obtain ⟨q, r, -, found, -, quotient, remainder, -⟩ := truncated (defined rfl)
    have forms := Integer.canonical_quotRem found
    refine ⟨.pair (.integer q) (.integer r), ?_, .pair_of_eq forms.1 forms.2 quotient remainder⟩
    exact congrArg (· >>= fun p => PrimOp.okPair (.integer p.1) (.integer p.2)) found
  | div =>
    obtain ⟨d, m, foundPair, found, -, floor⟩ := rounded (defined rfl)
    refine ⟨.scalar (.integer d), ?_,
      .number_of_eq (Integer.canonical_divMod foundPair).1 floor.eq_fdiv.1⟩
    exact congrArg (· >>= fun q => PrimOp.ok (.integer q)) found
  | mod =>
    obtain ⟨d, m, foundPair, -, found, floor⟩ := rounded (defined rfl)
    refine ⟨.scalar (.integer m), ?_,
      .number_of_eq (Integer.canonical_divMod foundPair).2 floor.eq_fdiv.2⟩
    exact congrArg (· >>= fun r => PrimOp.ok (.integer r)) found
  | divMod =>
    obtain ⟨d, m, found, -, -, floor⟩ := rounded (defined rfl)
    have forms := Integer.canonical_divMod found
    refine ⟨.pair (.integer d) (.integer m), ?_,
      .pair_of_eq forms.1 forms.2 floor.eq_fdiv.1 floor.eq_fdiv.2⟩
    exact congrArg (· >>= fun p => PrimOp.okPair (.integer p.1) (.integer p.2)) found

end Execute

/-! Printing -/

/-- The text of an answer: numerals of the radix, two of them with a space between. -/
inductive Printed (radix : Nat) : Answer → String → Prop where
  | number {n : Int} {text : String} : IsNumeral radix n text → Printed radix (.number n) text
  | pair {n m : Int} {first second : String} : IsNumeral radix n first →
      IsNumeral radix m second → Printed radix (.pair n m) (first ++ " " ++ second)
  | less : Printed radix (.order .lt) "-1"
  | same : Printed radix (.order .eq) "0"
  | greater : Printed radix (.order .gt) "1"
  | yes : Printed radix (.truth true) "true"
  | no : Printed radix (.truth false) "false"

theorem printed_render {radix : UInt32} (range : IsRadix radix) {result : Literal}
    {answer : Answer} (denotes : Denotes result answer) :
    Printed radix.toNat answer (render radix result) := by
  cases denotes with
  | number canonical => exact .number (Integer.isNumeral_write range canonical)
  | pair canonical canonical' =>
    exact .pair (Integer.isNumeral_write range canonical)
      (Integer.isNumeral_write range canonical')
  | order o =>
    cases o with
    | lt => exact .less
    | eq => exact .same
    | gt => exact .greater
  | truth b =>
    cases b with
    | true => exact .yes
    | false => exact .no

theorem Printed.unique {radix : Nat} (range : 2 ≤ radix ∧ radix ≤ 36) {answer : Answer}
    {text text' : String} (printed : Printed radix answer text)
    (printed' : Printed radix answer text') : text = text' := by
  cases printed with
  | number numeral =>
    cases printed' with
    | number numeral' => exact numeral.unique range numeral'
  | pair first second =>
    cases printed' with
    | pair first' second' => rw [first.unique range first', second.unique range second']
  | _ =>
    cases printed'
    rfl

/-! Calculations -/

/-- An operator before a text or between two. -/
inductive Calculation where
  | unary (op : Unary) (a : String)
  | binary (a : String) (op : Binary) (b : String)

namespace Calculation

def operands : Calculation → List String
  | .unary _ a => [a]
  | .binary a _ b => [a, b]

/-- What stands on the command line, flags apart. -/
def words : Calculation → List String
  | .unary op a => ["bigint", op.symbol, a]
  | .binary a op b => ["bigint", a, op.symbol, b]

/-- The operands are decimal numerals, and this is the answer on their integers. -/
inductive Answers : Calculation → Answer → Prop where
  | unary {op : Unary} {a : String} {x : Int} : Reads 10 a x → Answers (.unary op a) (op.value x)
  | binary {op : Binary} {a b : String} {x y : Int} : Reads 10 a x → Reads 10 b y →
      (op.divides = true → y ≠ 0) → Answers (.binary a op b) (op.value x y)

/-- Why there is no answer. The right operand comes first. -/
inductive Fails : Calculation → Error → Prop where
  | unary {op : Unary} {a : String} {e : Error} : FirstFault 10 a e → Fails (.unary op a) e
  | right {op : Binary} {a b : String} {e : Error} : FirstFault 10 b e → Fails (.binary a op b) e
  | left {op : Binary} {a b : String} {y : Int} {e : Error} : Reads 10 b y →
      FirstFault 10 a e → Fails (.binary a op b) e
  | zero {op : Binary} {a b : String} {x : Int} : Reads 10 a x → Reads 10 b 0 →
      op.divides = true → Fails (.binary a op b) .divisionByZero

/-- What the calculator does: it prints the answer, or it says why there is none. -/
inductive Result (radix : Nat) (c : Calculation) : Outcome → Prop where
  | answer {answer : Answer} {text : String} : c.Answers answer → Printed radix answer text →
      Result radix c ⟨0, text ++ "\n", ""⟩
  | failure {e : Error} : c.Fails e → Result radix c ⟨1, "", e.render ++ "\n"⟩

end Calculation

/-! The words of a command -/

/-- What is printed for a result. -/
def report (radix : UInt32) : Except Error Literal → Outcome
  | .error e => ⟨1, "", e.render ++ "\n"⟩
  | .ok result => ⟨0, render radix result ++ "\n", ""⟩

@[simp] theorem report_error (radix : UInt32) (e : Error) :
    report radix (.error e) = ⟨1, "", e.render ++ "\n"⟩ := rfl

@[simp] theorem report_ok (radix : UInt32) (result : Literal) :
    report radix (.ok result) = ⟨0, render radix result ++ "\n", ""⟩ := rfl

@[simp] theorem runCommand_bigint (radix : UInt32) (words : List String) :
    runCommand radix false ("bigint" :: words) = report radix (calculate .integer words) := by
  have known : evaluate "bigint" words = some (calculate .integer words) := rfl
  have help : isHelp "bigint" = false := by decide
  rw [runCommand, help, known]
  cases calculate .integer words <;> rfl

@[simp] theorem parse_integer (text : String) :
    Family.parse .integer text = Scalar.integer <$> Integer.parse text 10 := by
  rw [Family.parse]
  cases Integer.parse text 10 <;> rfl

theorem rightOperand_integer {op : PrimOp} (whole : takesBitCount op = false) (b : String) :
    rightOperand .integer op b = Scalar.integer <$> Integer.parse b 10 := by
  rw [rightOperand, whole, parse_integer]
  rfl

theorem rightOperand_bitCount {op : PrimOp} (count : takesBitCount op = true) (b : String) :
    rightOperand .integer op b =
      (fun y => Scalar.int (y.wordAt 0).toInt32) <$> Integer.parse b 10 := by
  rw [rightOperand, count]
  cases Integer.parse b 10 <;> rfl

theorem calculate_before {symbol : String} {op : PrimOp}
    (known : Family.lookup .integer symbol 1 = .ok op) (a : String) :
    calculate .integer [symbol, a] =
      (Integer.parse a 10 >>= fun x => op.execute [.scalar (.integer x)]) := by
  rw [calculate, known, parse_integer]
  cases Integer.parse a 10 <;> rfl

/-- The right operand is read first. -/
theorem calculate_between {symbol b : String} {op : PrimOp} {operand : Integer → Scalar}
    (known : Family.lookup .integer symbol 2 = .ok op)
    (right : rightOperand .integer op b = operand <$> Integer.parse b 10) (a : String) :
    calculate .integer [a, symbol, b] = (Integer.parse b 10 >>= fun y =>
      Integer.parse a 10 >>= fun x => op.execute [.scalar (.integer x), .scalar (operand y)]) := by
  rw [calculate, known]
  show (rightOperand .integer op b >>= _) = _
  rw [right, parse_integer]
  cases Integer.parse b 10 with
  | error e => rfl
  | ok y => cases Integer.parse a 10 <;> rfl

@[simp] theorem Unary.lookup_symbol (op : Unary) :
    Family.lookup .integer op.symbol 1 = .ok op.operation := by
  cases op <;> rfl

@[simp] theorem Binary.lookup_symbol (op : Binary) :
    Family.lookup .integer op.symbol 2 = .ok op.operation := by
  cases op <;> rfl

@[simp]
theorem Binary.takesBitCount_operation (op : Binary) : takesBitCount op.operation = false := by
  cases op <;> rfl

theorem calculate_binary (a : String) (op : Binary) (b : String) :
    calculate .integer [a, op.symbol, b] = (Integer.parse b 10 >>= fun y =>
      Integer.parse a 10 >>= fun x =>
        op.operation.execute [.scalar (.integer x), .scalar (.integer y)]) :=
  calculate_between op.lookup_symbol (rightOperand_integer op.takesBitCount_operation b) a

theorem isRadix_ten : IsRadix 10 := by decide

namespace Calculation

/-- The calculation that the words ask for. -/
def calculated (c : Calculation) : Except Error Literal := calculate .integer c.words.tail

theorem Answers.calculated {c : Calculation} {answer : Answer} (answers : c.Answers answer) :
    ∃ result, c.calculated = .ok result ∧ Denotes result answer := by
  cases answers with
  | @unary op a x reads =>
    obtain ⟨x, found, canonical, rfl⟩ := Integer.parse_of_reads isRadix_ten reads
    obtain ⟨result, executed, denotes⟩ := exists_execute_unary canonical op
    refine ⟨result, ?_, denotes⟩
    show calculate .integer [op.symbol, a] = _
    rw [calculate_before op.lookup_symbol, found]
    exact executed
  | @binary op a b x y reads reads' defined =>
    obtain ⟨x, found, canonical, rfl⟩ := Integer.parse_of_reads isRadix_ten reads
    obtain ⟨y, found', canonical', rfl⟩ := Integer.parse_of_reads isRadix_ten reads'
    obtain ⟨result, executed, denotes⟩ := exists_execute_binary canonical canonical' defined
    refine ⟨result, ?_, denotes⟩
    show calculate .integer [a, op.symbol, b] = _
    rw [calculate_binary, found', found]
    exact executed

theorem Fails.calculated {c : Calculation} {e : Error} (fails : c.Fails e) :
    c.calculated = .error e := by
  cases fails with
  | @unary op a e fault =>
    show calculate .integer [op.symbol, a] = _
    rw [calculate_before op.lookup_symbol, Integer.parse_of_firstFault fault]
    rfl
  | @right op a b e fault =>
    show calculate .integer [a, op.symbol, b] = _
    rw [calculate_binary, Integer.parse_of_firstFault fault]
    rfl
  | @left op a b y e reads fault =>
    obtain ⟨y, found, -⟩ := Integer.parse_of_reads isRadix_ten reads
    show calculate .integer [a, op.symbol, b] = _
    rw [calculate_binary, found, Integer.parse_of_firstFault fault]
    rfl
  | @zero op a b x reads reads' divides =>
    obtain ⟨x, found, -⟩ := Integer.parse_of_reads isRadix_ten reads
    obtain ⟨y, found', canonical, isZero⟩ := Integer.parse_of_reads isRadix_ten reads'
    show calculate .integer [a, op.symbol, b] = _
    rw [calculate_binary, found', found]
    exact execute_binary_by_zero canonical divides isZero

theorem answers_or_fails (c : Calculation) : (∃ answer, c.Answers answer) ∨ ∃ e, c.Fails e := by
  cases c with
  | unary op a =>
    rcases Integer.reads_or_firstFault a 10 with ⟨-, x, reads⟩ | ⟨e, fault⟩
    · exact .inl ⟨_, .unary reads⟩
    · exact .inr ⟨e, .unary fault⟩
  | binary a op b =>
    rcases Integer.reads_or_firstFault b 10 with ⟨-, y, reads'⟩ | ⟨e, fault⟩
    case inr => exact .inr ⟨e, .right fault⟩
    rcases Integer.reads_or_firstFault a 10 with ⟨-, x, reads⟩ | ⟨e, fault⟩
    case inr => exact .inr ⟨e, .left reads' fault⟩
    by_cases defined : op.divides = true → y ≠ 0
    · exact .inl ⟨_, .binary reads reads' defined⟩
    · rw [Classical.not_imp, not_not] at defined
      obtain ⟨divides, rfl⟩ := defined
      exact .inr ⟨_, .zero reads reads' divides⟩

theorem runCommand_words (c : Calculation) (radix : UInt32) :
    runCommand radix false c.words = report radix c.calculated := by
  cases c <;> exact runCommand_bigint radix _

theorem runCommand_iff (c : Calculation) {radix : UInt32} (range : IsRadix radix)
    (outcome : Outcome) :
    runCommand radix false c.words = outcome ↔ c.Result radix.toNat outcome := by
  rw [runCommand_words]
  constructor
  · rintro rfl
    rcases c.answers_or_fails with ⟨answer, answers⟩ | ⟨e, fails⟩
    · obtain ⟨result, found, denotes⟩ := answers.calculated
      rw [found]
      exact .answer answers (printed_render range denotes)
    · rw [fails.calculated]
      exact .failure fails
  · intro result
    cases result with
    | answer answers printed =>
      obtain ⟨result, found, denotes⟩ := answers.calculated
      rw [found, report_ok, printed.unique range (printed_render range denotes)]
    | failure fails => rw [fails.calculated, report_error]

end Calculation

/-! Flags -/

def flags : List String := ["--trace", "--stats", "--radix"]

/-- The text is one or more decimal digits, with or without a plus sign, that stand for a
radix in range. -/
def ReadsRadix (text : String) (radix : Nat) : Prop :=
  ∃ digits values, (text.toList = digits ∨ text.toList = '+' :: digits) ∧ digits ≠ [] ∧
    List.Forall₂ (IsDigit 10) digits values ∧ Nat.ofDigits 10 values.reverse = radix ∧
    2 ≤ radix ∧ radix ≤ 36

/-- The arguments are these words, with no flag or with one for the radix. -/
inductive Invocation (words : List String) : Nat → List String → Prop where
  | plain : Invocation words 10 words
  | flag {before after : List String} {text : String} {radix : Nat} : words = before ++ after →
      ReadsRadix text radix → Invocation words radix (before ++ "--radix" :: text :: after)

theorem isDigit_of_ten {c : Char} {value : Nat} (isDigit : IsDigit 10 c value) :
    c.isDigit = true ∧ c.toNat - '0'.toNat = value := by
  have found : Integer.digitValue? 10 c = some value := Integer.digitValue?_eq_some_iff.mpr isDigit
  rw [Integer.digitValue?, Option.filter_eq_some_iff] at found
  obtain ⟨found, -⟩ := found
  have small : value < 10 := isDigit.1
  split at found
  · next digit =>
    rw [Char.le_def, Char.le_def] at digit
    exact ⟨by simpa [Char.isDigit] using digit, Option.some.inj found⟩
  · -- The values of letters start at ten.
    split at found
    · have := Option.some.inj found
      omega
    · split at found
      · have := Option.some.inj found
        omega
      · cases found

theorem foldl_digits {digits : List Char} {values : List Nat}
    (read : List.Forall₂ (IsDigit 10) digits values) (start : Nat) :
    digits.foldl (fun n c => n * 10 + (c.toNat - '0'.toNat)) start =
      values.foldl (fun n value => n * 10 + value) start := by
  induction read generalizing start with
  | nil => rfl
  | cons first _ ih => rw [List.foldl_cons, List.foldl_cons, (isDigit_of_ten first).2, ih]

theorem all_isDigit {digits : List Char} {values : List Nat}
    (read : List.Forall₂ (IsDigit 10) digits values) : digits.all Char.isDigit = true := by
  induction read with
  | nil => rfl
  | cons first _ ih => rw [List.all_cons, (isDigit_of_ten first).1, ih, Bool.and_self]

theorem foldl_values (values : List Nat) :
    values.foldl (fun n value => n * 10 + value) 0 = Nat.ofDigits 10 values.reverse := by
  rw [Nat.ofDigits_eq_foldr, List.foldr_reverse]
  congr 1
  funext n value
  rw [Nat.add_comm, Nat.mul_comm]
  rfl

theorem ReadsRadix.readRadix_eq {text : String} {radix : Nat} (reads : ReadsRadix text radix) :
    readRadix text = some (UInt32.ofNat radix) := by
  obtain ⟨digits, values, split, nonempty, read, rfl, range⟩ := reads
  have stripped : (if text.toList.head? = some '+' then text.toList.tail else text.toList) =
      digits := by
    rcases split with plain | plus
    · have noSign : digits.head? ≠ some '+' := by
        intro head
        obtain ⟨rest, rfl⟩ := List.head?_eq_some_iff.mp head
        exact absurd (all_isDigit read) (by simp)
      rw [plain, if_neg noSign]
    · rw [plus]
      rfl
  have value := (foldl_digits read 0).trans (foldl_values values)
  have digitsOnly : (digits.isEmpty || !digits.all Char.isDigit) = false := by
    simp [all_isDigit read, nonempty]
  simp only [readRadix, stripped, digitsOnly, value]
  exact if_pos range

theorem ReadsRadix.not_mem_flags {text : String} {radix : Nat} (reads : ReadsRadix text radix) :
    text ∉ flags := by
  intro flag
  have accepted := reads.readRadix_eq
  have refused : flags.all (fun flag => (readRadix flag).isNone) = true := by decide
  rw [List.all_eq_true] at refused
  simpa [accepted] using refused text flag

theorem extractRadix_cons {arg : String} (other : arg ≠ "--radix") (radix : UInt32)
    (rest : List String) :
    extractRadix radix (arg :: rest) =
      (extractRadix radix rest).map fun (radix, kept) => (radix, arg :: kept) := by
  rw [extractRadix]
  · simp [other]
  · simp [other]

theorem extractRadix_append {before : List String} (other : "--radix" ∉ before) (radix : UInt32)
    {rest kept : List String} {found : UInt32}
    (extracted : extractRadix radix rest = .ok (found, kept)) :
    extractRadix radix (before ++ rest) = .ok (found, before ++ kept) := by
  induction before with
  | nil => exact extracted
  | cons arg before ih =>
    rw [List.mem_cons, not_or] at other
    rw [List.cons_append, extractRadix_cons (Ne.symm other.1), ih other.2]
    rfl

theorem extractRadix_flag {text : String} {radix : Nat} (reads : ReadsRadix text radix)
    (default : UInt32) (rest : List String) :
    extractRadix default ("--radix" :: text :: rest) = extractRadix (UInt32.ofNat radix) rest := by
  rw [extractRadix, reads.readRadix_eq]

theorem run_of_extractRadix {args words : List String} {radix : UInt32}
    (quiet : "--trace" ∉ args ∧ "--stats" ∉ args)
    (extracted : extractRadix 10 args = .ok (radix, words)) :
    run args = runCommand radix false words := by
  have kept : args.filter (fun arg => arg != "--trace" && arg != "--stats") = args := by
    rw [List.filter_eq_self]
    intro arg member
    have trace : arg ≠ "--trace" := fun same => quiet.1 (same ▸ member)
    have stats : arg ≠ "--stats" := fun same => quiet.2 (same ▸ member)
    simp [trace, stats]
  have noStats : args.contains "--stats" = false := by simpa using quiet.2
  simp only [run, kept, extracted, noStats]

theorem extractRadix_plain {words : List String} (other : "--radix" ∉ words) (radix : UInt32) :
    extractRadix radix words = .ok (radix, words) := by
  have extracted : extractRadix radix (words ++ []) = .ok (radix, words ++ []) :=
    extractRadix_append other radix rfl
  rwa [List.append_nil] at extracted

/-- The radix flag is taken out wherever it stands. -/
theorem Invocation.run_eq {words args : List String} {radix : Nat}
    (invocation : Invocation words radix args) (plain : ∀ word ∈ words, word ∉ flags) :
    run args = runCommand (UInt32.ofNat radix) false words := by
  have trace : "--trace" ∉ words := fun word => plain _ word (by decide)
  have stats : "--stats" ∉ words := fun word => plain _ word (by decide)
  have other : "--radix" ∉ words := fun word => plain _ word (by decide)
  cases invocation with
  | plain => exact run_of_extractRadix ⟨trace, stats⟩ (extractRadix_plain other 10)
  | @flag before after text radix split reads =>
    subst split
    have text_ne (flag : String) (member : flag ∈ flags) : flag ≠ text :=
      fun same => reads.not_mem_flags (same ▸ member)
    rw [List.mem_append, not_or] at trace stats other
    apply run_of_extractRadix
    · simp [trace, stats, text_ne "--trace" (by decide), text_ne "--stats" (by decide)]
    · apply extractRadix_append other.1
      rw [extractRadix_flag reads, extractRadix_plain other.2]

theorem Invocation.range {words args : List String} {radix : Nat}
    (invocation : Invocation words radix args) : 2 ≤ radix ∧ radix ≤ 36 := by
  cases invocation with
  | plain => decide
  | flag _ reads =>
    obtain ⟨_, _, _, _, _, _, range⟩ := reads
    exact range

/-- The radix is one of those that are written with digits and letters. -/
theorem Invocation.exists_runCommand {words args : List String} {radix : Nat}
    (invocation : Invocation words radix args) (plain : ∀ word ∈ words, word ∉ flags) :
    ∃ r : UInt32, r.toNat = radix ∧ IsRadix r ∧ run args = runCommand r false words := by
  obtain ⟨low, high⟩ := invocation.range
  have same : (UInt32.ofNat radix).toNat = radix :=
    UInt32.toNat_ofNat_of_lt (Nat.lt_of_le_of_lt high (by decide))
  refine ⟨UInt32.ofNat radix, same, ?_, invocation.run_eq plain⟩
  rw [IsRadix, same]
  exact ⟨low, high⟩

@[simp] theorem bigint_not_mem_flags : "bigint" ∉ flags := by decide

@[simp] theorem Unary.symbol_not_mem_flags (op : Unary) : op.symbol ∉ flags := by
  cases op <;> decide

@[simp] theorem Binary.symbol_not_mem_flags (op : Binary) : op.symbol ∉ flags := by
  cases op <;> decide

theorem Calculation.words_plain {c : Calculation} (plain : ∀ text ∈ c.operands, text ∉ flags) :
    ∀ word ∈ c.words, word ∉ flags := by
  cases c with
  | unary op a => simpa [words, operands] using plain
  | binary a op b => simpa [words, operands] using plain

/-- The calculator prints the exact answer in the radix that is asked for, and fails only
for an operand that is no decimal numeral, the right one first, or a division by zero. -/
theorem run_eq_iff_result {c : Calculation} {radix : Nat} {args : List String}
    (plain : ∀ text ∈ c.operands, text ∉ flags) (invocation : Invocation c.words radix args)
    (outcome : Outcome) : run args = outcome ↔ c.Result radix outcome := by
  obtain ⟨r, rfl, range, command⟩ :=
    invocation.exists_runCommand (Calculation.words_plain plain)
  rw [command, c.runCommand_iff range]

/-- Both parts of a rounded-down quotient are written in the radix. -/
theorem run_eq_iff_result_hex :
    let c : Calculation := .binary "-7" .divMod "300"
    let args := ["bigint", "-7", "--radix", "+16", "divMod", "300"]
    (∀ text ∈ c.operands, text ∉ flags) ∧ Invocation c.words 16 args ∧
      run args = ⟨0, "-1 125\n", ""⟩ ∧ c.Result 16 ⟨0, "-1 125\n", ""⟩ := by
  intro c args
  have plain : ∀ text ∈ c.operands, text ∉ flags := by decide
  have radix : ReadsRadix "+16" 16 := by
    refine ⟨['1', '6'], [1, 6], .inr (by decide), by decide, ?_, by decide, by decide, by decide⟩
    exact .cons ⟨by decide, by decide⟩ (.cons ⟨by decide, by decide⟩ .nil)
  have invocation : Invocation c.words 16 args :=
    .flag (show c.words = ["bigint", "-7"] ++ ["divMod", "300"] from rfl) radix
  have printed : run args = ⟨0, "-1 125\n", ""⟩ := by decide +kernel
  exact ⟨plain, invocation, printed, (run_eq_iff_result plain invocation _).mp printed⟩

end CallByNeed.Command
