import CallByNeed.Proofs.Calculator

set_option autoImplicit false

/-!
Shifts on the command line.

The bit count is a decimal numeral of any size, but only its low word reaches the shift.
So the answer is that of the count modulo `2 ^ 32`, and a residue whose top bit is set is
refused as negative. Below `2 ^ 32` nothing of the count is lost.
-/

namespace CallByNeed.Command

open Integer (Reads IsNumeral IsRadix)

inductive Shift where
  | left | right

namespace Shift

def symbol : Shift → String
  | .left => "shl"
  | .right => "shr"

def operation : Shift → PrimOp
  | .left => .integerShiftL
  | .right => .integerShiftR

def apply (a : Integer) (count : Nat) : Shift → Integer
  | .left => a.shiftLeft count
  | .right => a.shiftRight count

/-- The product with a power of two, or the quotient rounded down. -/
def value (x : Int) (count : Nat) : Shift → Int
  | .left => x * 2 ^ count
  | .right => x.fdiv (2 ^ count)

@[simp] theorem toInt_apply (op : Shift) (a : Integer) (count : Nat) :
    (op.apply a count).toInt = op.value a.toInt count := by
  cases op with
  | left => exact Integer.toInt_shiftLeft a count
  | right =>
    rw [apply, value, Integer.toInt_shiftRight, Int.fdiv_eq_ediv_of_nonneg _ (by positivity)]

theorem value_right_of_lt {x : Int} {count : Nat} (natural : 0 ≤ x) (small : x < 2 ^ count) :
    Shift.right.value x count = 0 := by
  rw [value, Int.fdiv_eq_ediv_of_nonneg _ (by positivity), Int.ediv_eq_zero_of_lt natural small]

@[simp] theorem canonical_apply (op : Shift) (a : Integer) (count : Nat) :
    (op.apply a count).Canonical := by
  cases op with
  | left => exact Integer.canonical_shiftLeft a count
  | right => exact Integer.canonical_shiftRight a count

theorem bits_int (op : PrimOp) (n : Int32) :
    PrimOp.Reader.bits op (.scalar (.int n)) =
      if n < 0 then .error (.wrongType op.name "non-negative Int" "Int")
      else .ok n.toInt.toNat := by
  by_cases negative : n < 0
  · rw [if_pos negative]
    exact if_pos negative
  · rw [if_neg negative]
    exact if_neg negative

/-- A negative count is refused. -/
theorem execute_eq (op : Shift) (a : Integer) (n : Int32) :
    op.operation.execute [.scalar (.integer a), .scalar (.int n)] =
      if n < 0 then .error (.wrongType op.operation.name "non-negative Int" "Int")
      else .ok (.scalar (.integer (op.apply a n.toInt.toNat))) := by
  have read : op.operation.execute [.scalar (.integer a), .scalar (.int n)] =
      (PrimOp.Reader.bits op.operation (.scalar (.int n)) >>= fun count =>
        PrimOp.ok (.integer (op.apply a count))) := by
    cases op <;> rfl
  rw [read, bits_int]
  split <;> rfl

/-- The part of a count that reaches the shift. -/
def lowCount (y : Int) : Nat := (y % 2 ^ 32).toNat

theorem lowCount_of_lt {y : Int} (natural : 0 ≤ y) (small : y < 2 ^ 32) :
    lowCount y = y.toNat := by
  rw [lowCount, Int.emod_eq_of_lt natural small]

/-- The low word is negative from half its range on. -/
theorem toInt_wordAt_zero (b : Integer) :
    (b.wordAt 0).toInt32.toInt =
      if lowCount b.toInt < 2 ^ 31 then (lowCount b.toInt : Int)
      else lowCount b.toInt - 2 ^ 32 := by
  have low := Word.toNat_ofInt b.toInt
  have signed : (b.wordAt 0).toInt32.toInt = ((b.wordAt 0).toNat : Int).bmod (2 ^ 32) :=
    BitVec.toInt_eq_toNat_bmod _
  rw [signed, Integer.wordAt_eq, Nat.mul_zero, Int.pow_zero, Int.ediv_one, Int.bmod_def]
  unfold lowCount
  omega

/-- What the calculator does with the integers of the two operands. -/
inductive Result (radix : Nat) (op : Shift) (x y : Int) : Outcome → Prop where
  | shifted {text : String} : lowCount y < 2 ^ 31 →
      IsNumeral radix (op.value x (lowCount y)) text → Result radix op x y ⟨0, text ++ "\n", ""⟩
  | refused : 2 ^ 31 ≤ lowCount y → Result radix op x y
      ⟨1, "", (Error.wrongType op.operation.name "non-negative Int" "Int").render ++ "\n"⟩

/-- The number for the whole count is printed, or an error. -/
inductive Exact (radix : Nat) (op : Shift) (x y : Int) : Outcome → Prop where
  | printed {text : String} : IsNumeral radix (op.value x y.toNat) text →
      Exact radix op x y ⟨0, text ++ "\n", ""⟩
  | failed (e : Error) : Exact radix op x y ⟨1, "", e.render ++ "\n"⟩

/-- What stands on the command line, flags apart. -/
def words (op : Shift) (a b : String) : List String := ["bigint", a, op.symbol, b]

@[simp]
theorem lookup_symbol (op : Shift) : Family.lookup .integer op.symbol 2 = .ok op.operation := by
  cases op <;> rfl

@[simp] theorem takesBitCount_operation (op : Shift) : takesBitCount op.operation = true := by
  cases op <;> rfl

theorem calculate_eq (op : Shift) (a b : String) :
    calculate .integer [a, op.symbol, b] = (Integer.parse b 10 >>= fun y =>
      Integer.parse a 10 >>= fun x =>
        op.operation.execute [.scalar (.integer x), .scalar (.int (y.wordAt 0).toInt32)]) :=
  calculate_between op.lookup_symbol (rightOperand_bitCount op.takesBitCount_operation b) a

@[simp] theorem symbol_not_mem_flags (op : Shift) : op.symbol ∉ flags := by
  cases op <;> decide

end Shift

theorem reads_ten {text : String} {n : Int} (a : Integer) (found : Integer.parse text 10 = .ok a)
    (value : a.toInt = n) : Reads 10 text n :=
  value ▸ (Integer.reads_of_parse found).2

theorem not_mem_flags_of_reads {text : String} {n : Int} (reads : Reads 10 text n) :
    text ∉ flags := by
  obtain ⟨_, found, -⟩ := Integer.parse_of_reads isRadix_ten reads
  have refused : flags.all (fun flag => !(Integer.parse flag 10).isOk) = true := by decide
  intro flag
  rw [List.all_eq_true] at refused
  have := refused text flag
  rw [found] at this
  cases this

namespace Shift

section Operands

variable (op : Shift) {a b : String} {x y : Int}

theorem words_plain (reads : Reads 10 a x) (reads' : Reads 10 b y) :
    ∀ word ∈ op.words a b, word ∉ flags := by
  simp [words, not_mem_flags_of_reads reads, not_mem_flags_of_reads reads']

theorem calculate_of_reads (reads : Reads 10 a x) (reads' : Reads 10 b y) :
    (lowCount y < 2 ^ 31 ∧ ∃ n : Integer, n.Canonical ∧ n.toInt = op.value x (lowCount y) ∧
      calculate .integer [a, op.symbol, b] = .ok (.scalar (.integer n))) ∨
    (2 ^ 31 ≤ lowCount y ∧ calculate .integer [a, op.symbol, b] =
      .error (.wrongType op.operation.name "non-negative Int" "Int")) := by
  obtain ⟨n, found, -, rfl⟩ := Integer.parse_of_reads isRadix_ten reads
  obtain ⟨m, found', -, rfl⟩ := Integer.parse_of_reads isRadix_ten reads'
  have computed : calculate .integer [a, op.symbol, b] =
      op.operation.execute [.scalar (.integer n), .scalar (.int (m.wordAt 0).toInt32)] := by
    rw [calculate_eq, found', found]
    rfl
  have signed := toInt_wordAt_zero m
  have sign : (m.wordAt 0).toInt32 < 0 ↔ (m.wordAt 0).toInt32.toInt < 0 := Int32.lt_iff_toInt_lt
  rw [computed, execute_eq]
  by_cases small : lowCount m.toInt < 2 ^ 31
  · rw [if_pos small] at signed
    rw [if_neg (by rw [sign, signed]; omega), signed]
    exact .inl ⟨small, _, op.canonical_apply _ _, op.toInt_apply _ _, rfl⟩
  · have bound : lowCount m.toInt < 2 ^ 32 := by
      unfold lowCount
      omega
    rw [if_neg small] at signed
    rw [if_pos (by rw [sign, signed]; omega)]
    exact .inr ⟨Nat.le_of_not_lt small, rfl⟩

theorem runCommand_iff (reads : Reads 10 a x) (reads' : Reads 10 b y) {radix : UInt32}
    (range : IsRadix radix) (outcome : Outcome) :
    runCommand radix false (op.words a b) = outcome ↔ op.Result radix.toNat x y outcome := by
  rw [words, runCommand_bigint]
  rcases op.calculate_of_reads reads reads' with
    ⟨small, n, canonical, value, found⟩ | ⟨large, found⟩
  · have numeral : IsNumeral radix.toNat (op.value x (lowCount y)) (n.write radix) := by
      rw [← value]
      exact Integer.isNumeral_write range canonical
    rw [found]
    constructor
    · rintro rfl
      exact .shifted small numeral
    · intro result
      cases result with
      | shifted _ numeral' =>
        rw [numeral'.unique range numeral]
        rfl
      | refused large => omega
  · rw [found]
    constructor
    · rintro rfl
      exact .refused large
    · intro result
      cases result with
      | shifted small => omega
      | refused => rfl

variable {op} in
/-- The answer is exact if the count is refused, or if what is lost of it makes no difference. -/
theorem Result.exact_iff {radix : UInt32} (range : IsRadix radix) {outcome : Outcome}
    (result : op.Result radix.toNat x y outcome) :
    op.Exact radix.toNat x y outcome ↔
      2 ^ 31 ≤ lowCount y ∨ op.value x (lowCount y) = op.value x y.toNat := by
  cases result with
  | @shifted text small numeral =>
    constructor
    · intro isExact
      generalize printed : text ++ "\n" = line at isExact
      cases isExact with
      | printed numeral' =>
        rw [← String.toList_inj, String.toList_append, String.toList_append,
          List.append_cancel_right_eq, String.toList_inj] at printed
        subst printed
        exact .inr ((Integer.reads_of_isNumeral numeral).unique range
          (Integer.reads_of_isNumeral numeral'))
    · rintro (large | same)
      · omega
      · exact .printed (same ▸ numeral)
  | refused large => exact ⟨fun _ => .inl large, fun _ => .failed _⟩

end Operands

end Shift

/-- A shift prints the number for its count modulo `2 ^ 32`, or refuses the count if that
residue is `2 ^ 31` or more. So it prints the number for the whole count, or fails, unless
what is lost of the count makes a difference, and always does for a count below `2 ^ 32`. -/
theorem shift_takes_low_word {op : Shift} {a b : String} {x y : Int} {radix : Nat}
    {args : List String} (reads : Reads 10 a x) (reads' : Reads 10 b y)
    (invocation : Invocation (op.words a b) radix args) :
    (∀ outcome, run args = outcome ↔ op.Result radix x y outcome) ∧
    (0 ≤ y →
      (op.Exact radix x y (run args) ↔
        2 ^ 31 ≤ Shift.lowCount y ∨ op.value x (Shift.lowCount y) = op.value x y.toNat) ∧
      (y < 2 ^ 32 → op.Exact radix x y (run args))) := by
  obtain ⟨r, rfl, range, command⟩ := invocation.exists_runCommand (op.words_plain reads reads')
  have result_iff := op.runCommand_iff reads reads' range
  have exact_iff := ((result_iff _).mp rfl).exact_iff range
  rw [command]
  refine ⟨result_iff, fun natural => ⟨exact_iff, fun small => ?_⟩⟩
  rw [exact_iff, Shift.lowCount_of_lt natural small]
  exact .inr rfl

/-- A count of `2 ^ 32 + 1` halves. -/
theorem shift_takes_low_word_halves :
    let args := ["bigint", "-500", "shr", "4294967297"]
    Reads 10 "-500" (-500) ∧ Reads 10 "4294967297" (2 ^ 32 + 1) ∧
      Invocation (Shift.right.words "-500" "4294967297") 10 args ∧
      run args = ⟨0, "-250\n", ""⟩ ∧
      Shift.right.Result 10 (-500) (2 ^ 32 + 1) ⟨0, "-250\n", ""⟩ := by
  intro args
  have reads : Reads 10 "-500" (-500) :=
    reads_ten ⟨[0xFFFFFE0C], true⟩ (by decide +kernel) (by decide)
  have reads' : Reads 10 "4294967297" (2 ^ 32 + 1) :=
    reads_ten ⟨[1, 1], false⟩ (by decide +kernel) (by decide)
  have printed : run args = ⟨0, "-250\n", ""⟩ := by decide +kernel
  exact ⟨reads, reads', .plain, printed,
    ((shift_takes_low_word reads reads' .plain).1 _).mp printed⟩

/-- A count of `2 ^ 32` leaves the number as it is. -/
theorem shift_right_loses_count :
    let args := ["bigint", "1", "shr", "4294967296"]
    Reads 10 "1" 1 ∧ Reads 10 "4294967296" (2 ^ 32) ∧ run args = ⟨0, "1\n", ""⟩ ∧
      Shift.right.value 1 (2 ^ 32) = 0 ∧ ¬ Shift.right.Exact 10 1 (2 ^ 32) (run args) := by
  intro args
  have reads : Reads 10 "1" 1 :=
    reads_ten ⟨[1], false⟩ (by decide +kernel) (by decide)
  have reads' : Reads 10 "4294967296" (2 ^ 32) :=
    reads_ten ⟨[0, 1], false⟩ (by decide +kernel) (by decide)
  have printed : run args = ⟨0, "1\n", ""⟩ := by decide +kernel
  have vanishes : Shift.right.value 1 (2 ^ 32) = 0 :=
    Shift.value_right_of_lt (by decide) (one_lt_pow₀ (by decide) (by decide))
  have result : Shift.right.Result 10 1 (2 ^ 32) (run args) := by
    obtain ⟨r, same, range, command⟩ :=
      (Invocation.plain : Invocation args 10 args).exists_runCommand
        (Shift.right.words_plain reads reads')
    rw [command, ← same]
    exact (Shift.right.runCommand_iff reads reads' range _).mp rfl
  refine ⟨reads, reads', printed, vanishes, fun isExact => ?_⟩
  rcases (result.exact_iff isRadix_ten).mp isExact with large | same
  · exact absurd large (by decide)
  · exact absurd (same.trans vanishes) (by decide)

end CallByNeed.Command
