import CallByNeed.Proofs.Memo
import CallByNeed.Proofs.Reading
import CallByNeed.Proofs.Simulation

set_option autoImplicit false

/-!
Primitive operations force all their arguments.

The number of arguments is checked first. Then they are forced from left to
right up to the first that fails, and what comes after that one is not touched.
Where all can be forced, the answer is a scalar, a new pair of scalars or one of
six errors. It depends on the values that were found and on nothing else.
-/

namespace CallByNeed

/-- Values that are the same but for the identities of data cells. -/
def Correspondence.nameless : Correspondence where
  data _ _ := True
  closure := Eq

namespace PrimOp

/-- The errors that an operation may give for evaluated operands. -/
inductive Refusal (op : PrimOp) : Error → Prop where
  | divisionByZero : op.Refusal .divisionByZero
  | radixOutOfRange (radix : UInt32) : op.Refusal (.radixOutOfRange radix)
  | emptyNumber : op.Refusal .emptyNumber
  | interiorMinus : op.Refusal .interiorMinus
  | invalidDigit (digit : Char) (radix : UInt32) : op.Refusal (.invalidDigit digit radix)
  | wrongType (expected got : String) : op.Refusal (.wrongType op.name expected got)

/-- The results that an operation may give for evaluated operands. -/
inductive Result (op : PrimOp) : Except Error Literal → Prop where
  | scalar (s : Scalar) : op.Result (.ok (.scalar s))
  | pair (first second : Scalar) : op.Result (.ok (.pair first second))
  | refused {e : Error} : op.Refusal e → op.Result (.error e)

/-- If this fails, then with an error that the operation may give. -/
def Careful {α : Type} (op : PrimOp) (x : Except Error α) : Prop :=
  ∀ e, x = .error e → op.Refusal e

section Careful

variable {α β : Type} {op : PrimOp}

theorem careful_ok (a : α) : op.Careful (.ok a) := by
  intro e impossible
  cases impossible

theorem careful_error {e : Error} (refusal : op.Refusal e) :
    op.Careful (.error e : Except Error α) := by
  rintro _ ⟨⟩
  exact refusal

theorem Careful.bind {x : Except Error α} {f : α → Except Error β} (first : op.Careful x)
    (rest : ∀ a, op.Careful (f a)) : op.Careful (x >>= f) := by
  cases x with
  | error e => exact careful_error (first e rfl)
  | ok a => exact rest a

theorem Careful.map {x : Except Error α} (first : op.Careful x) (f : α → β) :
    op.Careful (x.map f) := by
  cases x with
  | error e => exact careful_error (first e rfl)
  | ok a => exact careful_ok (f a)

theorem Careful.result {x : Except Error α} {f : α → Except Error Literal}
    (first : op.Careful x) (rest : ∀ a, op.Result (f a)) : op.Result (x >>= f) := by
  cases x with
  | error e => exact .refused (first e rfl)
  | ok a => exact rest a

theorem careful_typeError (expected : String) (got : Operand) :
    op.Careful (.error (op.typeError expected got) : Except Error α) :=
  careful_error (.wrongType expected got.typeName)

end Careful

/-! Operands -/

namespace Reader

/-- Reading an operand of any kind gives no other errors. -/
def Careful {α : Type} (read : Reader α) : Prop :=
  ∀ (op : PrimOp) (got : Operand), op.Careful (read op got)

theorem careful_integer : Careful integer := by
  intro op got
  fun_cases integer op got
  · exact careful_ok _
  · exact careful_typeError _ _

theorem careful_long : Careful long := by
  intro op got
  fun_cases long op got
  · exact careful_ok _
  · exact careful_typeError _ _

theorem careful_ulong : Careful ulong := by
  intro op got
  fun_cases ulong op got
  · exact careful_ok _
  · exact careful_typeError _ _

theorem careful_int : Careful int := by
  intro op got
  fun_cases int op got
  · exact careful_ok _
  · exact careful_typeError _ _

theorem careful_double : Careful double := by
  intro op got
  fun_cases double op got
  · exact careful_ok _
  · exact careful_typeError _ _

theorem careful_str : Careful str := by
  intro op got
  fun_cases str op got
  · exact careful_ok _
  · exact careful_typeError _ _

theorem careful_bits : Careful bits := by
  intro op got
  refine (careful_int op got).bind fun n => ?_
  by_cases negative : n < 0
  · simp only [negative, if_true]
    exact careful_typeError _ _
  · simp only [negative, if_false]
    exact careful_ok _

theorem careful_amount : Careful amount := fun op got =>
  (careful_int op got).bind fun n => careful_ok n.toUInt32

theorem careful_radix : Careful radix := by
  intro op got
  refine (careful_int op got).bind fun n => ?_
  by_cases negative : n < 0
  · simp only [negative, if_true]
    exact careful_error (.radixOutOfRange 0)
  · simp only [negative, if_false]
    exact careful_ok _

theorem careful_word : Careful word := by
  intro op got
  fun_cases word op got
  · exact careful_ok _
  · exact (careful_int op _).map _

theorem careful_tag : Careful tag := by
  intro op got
  fun_cases tag op got
  · exact careful_ok _
  · exact careful_typeError _ _

end Reader

/-! Divisions and numerals -/

section Numbers

variable {op : PrimOp}

theorem careful_quot (a b : Integer) : op.Careful (a.quot b) := by
  fun_cases Integer.quot a b
  · exact careful_error .divisionByZero
  all_goals exact careful_ok _

theorem careful_quotRem (a b : Integer) : op.Careful (a.quotRem b) :=
  (careful_quot a b).bind fun q => careful_ok (q, a - q * b)

theorem careful_divMod (a b : Integer) : op.Careful (a.divMod b) := by
  refine (careful_quotRem a b).bind fun (q, r) => ?_
  dsimp only
  split
  · exact careful_ok _
  · exact careful_ok _

theorem careful_longQuot (x y : Long) : op.Careful (x.quot y) := by
  fun_cases Long.quot x y
  · exact careful_error .divisionByZero
  all_goals exact careful_ok _

theorem careful_longRem (x y : Long) : op.Careful (x.rem y) :=
  (careful_longQuot x y).bind fun q => careful_ok (x - q * y)

theorem careful_wordQuotRem (a b : Int32) : op.Careful (Word.quotRem a b) := by
  fun_cases Word.quotRem a b
  · exact careful_error .divisionByZero
  · exact careful_ok _

theorem careful_toText (a : Integer) (radix : UInt32) : op.Careful (a.toText radix) := by
  fun_cases Integer.toText a radix
  · exact careful_ok _
  · exact careful_error (.radixOutOfRange radix)

theorem careful_parse (text : String) (radix : UInt32) :
    op.Careful (Integer.parse text radix) := by
  intro e refused
  cases Integer.firstFault_of_parse refused with
  | radix => exact .radixOutOfRange radix
  | empty => exact .emptyNumber
  | interiorMinus => exact .interiorMinus
  | onlyMinus => exact .emptyNumber
  | invalidDigit => exact .invalidDigit _ radix

end Numbers

/-! Results -/

section Results

open Reader

variable {α β : Type} {op : PrimOp} {operands : List Operand}

theorem result_unary {read : Reader α} {f : α → Except Error Literal} (careful : read.Careful)
    (computes : ∀ a, op.Result (f a)) (saturated : operands.length = 1) :
    op.Result (unary op operands read f) := by
  obtain ⟨a, rfl⟩ := List.length_eq_one_iff.mp saturated
  exact (careful op a).result computes

theorem result_binary {first : Reader α} {second : Reader β} {f : α → β → Except Error Literal}
    (careful : first.Careful) (careful' : second.Careful) (computes : ∀ a b, op.Result (f a b))
    (saturated : operands.length = 2) : op.Result (binary op operands first second f) := by
  obtain ⟨a, b, rfl⟩ := List.length_eq_two.mp saturated
  exact (careful op a).result fun x => (careful' op b).result fun y => computes x y

/-- With the right number of operands of any kind, every operation gives one of the results. -/
theorem result_compute (op : PrimOp) (saturated : operands.length = op.arity) :
    op.Result (op.compute operands) := by
  cases op with
  | integerAdd | integerSub | integerMul | integerAnd | integerOr | integerXor | integerCompare
  | integerEq | integerFromRat =>
    exact result_binary careful_integer careful_integer (fun _ _ => .scalar _) saturated
  | integerNegate | integerAbs | integerSignum | integerComplement | integerToInt
  | integerToDouble | integerToInt64 | integerToWord64 =>
    exact result_unary careful_integer (fun _ => .scalar _) saturated
  | integerQuot =>
    exact result_binary careful_integer careful_integer
      (fun a b => (careful_quot a b).result fun _ => .scalar _) saturated
  | integerRem =>
    exact result_binary careful_integer careful_integer
      (fun a b => ((careful_quotRem a b).bind fun _ => careful_ok _).result fun _ => .scalar _)
      saturated
  | integerDiv | integerMod =>
    exact result_binary careful_integer careful_integer
      (fun a b => ((careful_divMod a b).bind fun _ => careful_ok _).result fun _ => .scalar _)
      saturated
  | integerQuotRem =>
    exact result_binary careful_integer careful_integer
      (fun a b => (careful_quotRem a b).result fun _ => .pair _ _) saturated
  | integerDivMod =>
    exact result_binary careful_integer careful_integer
      (fun a b => (careful_divMod a b).result fun _ => .pair _ _) saturated
  | integerShiftL | integerShiftR | integerShorten =>
    exact result_binary careful_integer careful_bits (fun _ _ => .scalar _) saturated
  | integerToString =>
    exact result_binary careful_integer careful_radix
      (fun a r => (careful_toText a r).result fun _ => .scalar _) saturated
  | integerFromString =>
    exact result_binary careful_str careful_radix
      (fun s r => (careful_parse s r).result fun _ => .scalar _) saturated
  | integerFromInt | int64FromInt =>
    exact result_unary careful_int (fun _ => .scalar _) saturated
  | integerFromDouble | int64FromDouble =>
    exact result_unary careful_double (fun _ => .scalar _) saturated
  | integerFromInt64 | int64Negate | int64Not | int64ToInt | int64ToDouble | word64FromInt64 =>
    exact result_unary careful_long (fun _ => .scalar _) saturated
  | integerFromWord64 | word64Not | word64ToInt64 =>
    exact result_unary careful_ulong (fun _ => .scalar _) saturated
  | integerEncodeDouble =>
    exact result_binary careful_integer careful_int (fun _ _ => .scalar _) saturated
  | integerDecodeDouble | decodeFloat =>
    exact result_unary careful_double (fun _ => .pair _ _) saturated
  | int64Add | int64Sub | int64Mul | int64And | int64Or | int64Xor | int64Compare | int64Eq =>
    exact result_binary careful_long careful_long (fun _ _ => .scalar _) saturated
  | int64Quot =>
    exact result_binary careful_long careful_long
      (fun x y => (careful_longQuot x y).result fun _ => .scalar _) saturated
  | int64Rem =>
    exact result_binary careful_long careful_long
      (fun x y => (careful_longRem x y).result fun _ => .scalar _) saturated
  | int64Div =>
    exact result_binary careful_long careful_long
      (fun x y => ((careful_longQuot x y).bind fun _ => careful_ok _).result fun _ => .scalar _)
      saturated
  | int64Mod =>
    exact result_binary careful_long careful_long
      (fun x y => ((careful_longRem x y).bind fun _ => careful_ok _).result fun _ => .scalar _)
      saturated
  | int64ShiftL | int64ShiftRA | int64ShiftRL =>
    exact result_binary careful_long careful_amount (fun _ _ => .scalar _) saturated
  | word64Add | word64Sub | word64Mul | word64And | word64Or | word64Xor | word64Compare
  | word64Eq =>
    exact result_binary careful_ulong careful_ulong (fun _ _ => .scalar _) saturated
  | word64Quot =>
    exact result_binary careful_ulong careful_ulong
      (fun _ _ => ((careful_quot _ _).bind fun _ => careful_ok _).result fun _ => .scalar _)
      saturated
  | word64Rem =>
    exact result_binary careful_ulong careful_ulong
      (fun _ _ => (((careful_quotRem _ _).bind fun _ => careful_ok _).bind
        fun _ => careful_ok _).result fun _ => .scalar _) saturated
  | word64ShiftL | word64ShiftRL =>
    exact result_binary careful_ulong careful_amount (fun _ _ => .scalar _) saturated
  | intMul => exact result_binary careful_int careful_int (fun _ _ => .scalar _) saturated
  | intAddC | intSubC => exact result_binary careful_int careful_int (fun _ _ => .pair _ _) saturated
  | intQuotRem =>
    exact result_binary careful_int careful_int
      (fun a b => (careful_wordQuotRem a b).result fun _ => .pair _ _) saturated
  | wordPopCnt => exact result_unary careful_word (fun _ => .scalar _) saturated
  | dataToTag => exact result_unary careful_tag (fun _ => .scalar _) saturated

end Results

theorem execute_of_length_eq {op : PrimOp} {operands : List Operand}
    (saturated : operands.length = op.arity) : op.execute operands = op.compute operands :=
  if_pos saturated

/-- What an operation does with evaluated operands. The machine only gives out the identity of
a new pair. -/
inductive Answers (op : PrimOp) (values : List Value) (m : Machine) :
    Except Error Value → Machine → Prop where
  | refused {e : Error} : op.execute (values.map Value.operand) = .error e → op.Refusal e →
      op.Answers values m (.error e) m
  | scalar {s : Scalar} : op.execute (values.map Value.operand) = .ok (.scalar s) →
      op.Answers values m (.ok (.scalar s)) m
  | pair {first second : Scalar} :
      op.execute (values.map Value.operand) = .ok (.pair first second) →
      op.Answers values m (.ok (.data m.nextData 0 [.scalar first, .scalar second]))
        { m with nextData := m.nextData + 1 }

end PrimOp

namespace Eval

variable {run : Runner} {m m' : Machine} {values : List Value}

/-- Forced one after the other, the values are found to be these. -/
inductive ForcesAll (run : Runner) : Machine → List Value → List Value → Machine → Prop where
  | nil (m : Machine) : ForcesAll run m [] [] m
  | cons {m between m' : Machine} {value first : Value} {values rest : List Value} :
      (run (.force value)).Ends m (.ok first) between → ForcesAll run between values rest m' →
      ForcesAll run m (value :: values) (first :: rest) m'

/-- Forced one after the other, the values come to one that fails. Those after it are left
alone. -/
def FailsFirst (run : Runner) (m : Machine) (values : List Value) (e : Error) (m' : Machine) :
    Prop :=
  ∃ before value after found between, values = before ++ value :: after ∧
    ForcesAll run m before found between ∧ (run (.force value)).Ends between (.error e) m'

theorem forceAll_cons (value : Value) (values : List Value) :
    forceAll run (value :: values) = (run (.force value) >>= fun first =>
      forceAll run values >>= fun rest => pure (first :: rest)) :=
  List.mapM_cons

theorem ForcesAll.length_eq {found : List Value} (forced : ForcesAll run m values found m') :
    found.length = values.length := by
  induction forced with
  | nil => rfl
  | cons _ _ ih => simp [ih]

theorem ends_forceAll_ok {found : List Value} :
    (forceAll run values).Ends m (.ok found) m' ↔ ForcesAll run m values found m' := by
  induction values generalizing m found with
  | nil =>
    constructor
    · intro ended
      obtain ⟨⟨⟩, rfl⟩ := ends_pure.mp ended
      exact .nil m'
    · rintro ⟨⟩
      exact ends_pure.mpr ⟨rfl, rfl⟩
  | cons value values ih =>
    rw [forceAll_cons]
    constructor
    · intro ended
      rcases ends_bind.mp ended with ⟨e, -, impossible⟩ | ⟨first, between, done, others⟩
      · cases impossible
      · obtain ⟨e | rest, forced, same⟩ := ends_bind_pure.mp others
        · cases same
        · cases same
          exact .cons done (ih.mp forced)
    · rintro (_ | ⟨done, forced⟩)
      exact done.bind ((ih.mpr forced).bind (ends_pure.mpr ⟨rfl, rfl⟩))

theorem ends_forceAll_error {e : Error} :
    (forceAll run values).Ends m (.error e) m' ↔ FailsFirst run m values e m' := by
  induction values generalizing m with
  | nil =>
    constructor
    · intro ended
      cases (ends_pure.mp ended).1
    · rintro ⟨before, value, after, found, between, split, -⟩
      simp at split
  | cons value values ih =>
    rw [forceAll_cons]
    constructor
    · intro ended
      rcases ends_bind.mp ended with ⟨e', failed, same⟩ | ⟨first, between, done, others⟩
      · cases same
        exact ⟨[], value, values, [], m, rfl, .nil m, failed⟩
      · obtain ⟨e' | rest, failed, same⟩ := ends_bind_pure.mp others
        · cases same
          obtain ⟨before, value', after, found, between', rfl, forced, failed'⟩ := ih.mp failed
          exact ⟨value :: before, value', after, first :: found, between', rfl,
            .cons done forced, failed'⟩
        · cases same
    · rintro ⟨before, value', after, found, between, split, forced, failed⟩
      cases forced with
      | nil =>
        cases split
        exact failed.bind_error
      | cons done forced =>
        cases split
        exact done.bind (ih.mpr ⟨_, _, _, _, _, rfl, forced, failed⟩).bind_error

theorem forcesAll_plain (plain : ∀ value ∈ values, value.isThunk = false) (m : Machine)
    (depth : Nat) : ForcesAll (CallByNeed.run (depth + 1)) m values values m := by
  induction values with
  | nil => exact .nil m
  | cons value values ih =>
    obtain ⟨first, rest⟩ := List.forall_mem_cons.mp plain
    exact .cons (force_plain first m depth) (ih rest)

end Eval

namespace PrimOp

variable {op : PrimOp} {values : List Value} {m m' : Machine} {outcome : Except Error Value}

theorem ends_instantiate_scalar {s : Scalar} :
    (Eval.instantiate (.scalar s)).Ends m outcome m' ↔ outcome = .ok (.scalar s) ∧ m' = m :=
  Eval.ends_iff_of_run rfl

theorem ends_instantiate_pair {first second : Scalar} :
    (Eval.instantiate (.pair first second)).Ends m outcome m' ↔
      outcome = .ok (.data m.nextData 0 [.scalar first, .scalar second]) ∧
        m' = { m with nextData := m.nextData + 1 } :=
  Eval.ends_iff_of_run rfl

/-- Evaluated operands are always answered. -/
theorem exists_answers (saturated : values.length = op.arity) (m : Machine) :
    ∃ outcome m', op.Answers values m outcome m' := by
  have saturated' : (values.map Value.operand).length = op.arity := by simpa using saturated
  have executed := execute_of_length_eq saturated'
  have result := op.result_compute saturated'
  generalize op.compute (values.map Value.operand) = found at executed result
  cases result with
  | scalar s => exact ⟨_, _, .scalar executed⟩
  | pair first second => exact ⟨_, _, .pair executed⟩
  | refused refusal => exact ⟨_, _, .refused executed refusal⟩

/-- The last part of an execution, when the arguments have been forced. -/
theorem ends_compute_iff (saturated : values.length = op.arity) :
    Eval.Ends (match op.compute (values.map Value.operand) with
      | .ok result => Eval.instantiate result
      | .error e => throw e) m outcome m' ↔ op.Answers values m outcome m' := by
  have computes {outcome : Except Error Value} {m' : Machine}
      (answers : op.Answers values m outcome m') :
      Eval.Ends (match op.compute (values.map Value.operand) with
        | .ok result => Eval.instantiate result
        | .error e => throw e) m outcome m' := by
    rw [← execute_of_length_eq (by simpa using saturated)]
    cases answers with
    | scalar found =>
      rw [found]
      exact ends_instantiate_scalar.mpr ⟨rfl, rfl⟩
    | pair found =>
      rw [found]
      exact ends_instantiate_pair.mpr ⟨rfl, rfl⟩
    | refused found =>
      rw [found]
      exact Eval.ends_throw.mpr ⟨rfl, rfl⟩
  refine ⟨fun ended => ?_, computes⟩
  obtain ⟨outcome', n, answers⟩ := exists_answers saturated m
  obtain ⟨rfl, rfl⟩ := ended.unique (computes answers)
  exact answers

namespace Answers

theorem isThunk {value : Value} (answers : op.Answers values m (.ok value) m') :
    value.isThunk = false := by
  cases answers <;> rfl

theorem refusal {e : Error} (answers : op.Answers values m (.error e) m') : op.Refusal e := by
  cases answers with
  | refused _ refusal => exact refusal

theorem machine_eq (answers : op.Answers values m outcome m') :
    m' = { m with nextData := m'.nextData } := by
  cases answers <;> rfl

/-- The answers in two machines differ at most in the identity of a new pair. -/
theorem alike {n n' : Machine} {outcome' : Except Error Value}
    (first : op.Answers values m outcome m') (second : op.Answers values n outcome' n') :
    Outcomes Correspondence.nameless.Values outcome outcome' := by
  cases first with
  | scalar found =>
    cases second with
    | scalar found' =>
      cases found.symm.trans found'
      exact .ok (.scalar _)
    | pair found' | refused found' => cases found.symm.trans found'
  | pair found =>
    cases second with
    | pair found' =>
      cases found.symm.trans found'
      exact .ok (.data trivial (.cons (.scalar _) (.cons (.scalar _) .nil)))
    | scalar found' | refused found' => cases found.symm.trans found'
  | refused found =>
    cases second with
    | refused found' =>
      cases found.symm.trans found'
      exact .error _
    | scalar found' | pair found' => cases found.symm.trans found'

end Answers

end PrimOp

variable {fuel : Nat} {op : PrimOp} {args : List Value} {m m' : Machine}

theorem ends_execute_iff (saturated : args.length = op.arity) {outcome : Except Error Value} :
    (Eval.execute (run fuel) op args).Ends m outcome m' ↔
      (∃ e, Eval.FailsFirst (run fuel) m args e m' ∧ outcome = .error e) ∨
      ∃ values between, Eval.ForcesAll (run fuel) m args values between ∧
        op.Answers values between outcome m' := by
  rw [Eval.execute_of_length_eq saturated, Eval.ends_bind]
  constructor
  · rintro (⟨e, failed, rfl⟩ | ⟨values, between, forced, rest⟩)
    · exact .inl ⟨e, Eval.ends_forceAll_error.mp failed, rfl⟩
    · have forced := Eval.ends_forceAll_ok.mp forced
      have saturated' := forced.length_eq.trans saturated
      exact .inr ⟨values, between, forced, (PrimOp.ends_compute_iff saturated').mp rest⟩
  · rintro (⟨e, failed, rfl⟩ | ⟨values, between, forced, answers⟩)
    · exact .inl ⟨e, Eval.ends_forceAll_error.mpr failed, rfl⟩
    · have saturated' := forced.length_eq.trans saturated
      exact .inr ⟨values, between, Eval.ends_forceAll_ok.mpr forced,
        (PrimOp.ends_compute_iff saturated').mpr answers⟩

/-- An operation with a wrong number of arguments fails at once. Otherwise it fails with the
first argument that fails, or answers what it computes from the values found. -/
theorem execute_strict (fuel : Nat) (op : PrimOp) (args : List Value) (m : Machine) :
    (args.length ≠ op.arity → ∀ outcome m', (Eval.execute (run fuel) op args).Ends m outcome m' ↔
      outcome = .error (.wrongArity op.name op.arity args.length) ∧ m' = m) ∧
    (args.length = op.arity →
      (∀ outcome m', (Eval.execute (run fuel) op args).Ends m outcome m' ↔
        (∃ e, Eval.FailsFirst (run fuel) m args e m' ∧ outcome = .error e) ∨
        ∃ values between, Eval.ForcesAll (run fuel) m args values between ∧
          op.Answers values between outcome m') ∧
      ∀ values between, Eval.ForcesAll (run fuel) m args values between →
        ∃ outcome m', (Eval.execute (run fuel) op args).Ends m outcome m' ∧
          m' = { between with nextData := m'.nextData } ∧
          (∀ value, outcome = .ok value → value.isThunk = false) ∧
          (∀ e, outcome = .error e → op.Refusal e) ∧
          ((∀ value ∈ values, value.isThunk = false) → ∀ depth,
            (Eval.execute (run (depth + 1)) op values).Ends between outcome m' ∧
            ∀ n, ∃ outcome' n', (Eval.execute (run (depth + 1)) op values).Ends n outcome' n' ∧
              Outcomes Correspondence.nameless.Values outcome outcome')) := by
  constructor
  · intro mismatch outcome m'
    rw [Eval.execute_of_length_ne mismatch, Eval.ends_throw]
    rfl
  · intro saturated
    refine ⟨fun outcome m' => ends_execute_iff saturated, ?_⟩
    intro values between forced
    have saturated' : values.length = op.arity := forced.length_eq.trans saturated
    obtain ⟨outcome, m', answers⟩ := PrimOp.exists_answers saturated' between
    refine ⟨outcome, m', ?_, answers.machine_eq, ?_, ?_, ?_⟩
    · exact (ends_execute_iff saturated).mpr (.inr ⟨values, between, forced, answers⟩)
    · rintro value rfl
      exact answers.isThunk
    · rintro e rfl
      exact answers.refusal
    · intro plain depth
      have again (n : Machine) := Eval.forcesAll_plain plain n depth
      refine ⟨(ends_execute_iff saturated').mpr (.inr ⟨values, _, again between, answers⟩), ?_⟩
      intro n
      obtain ⟨outcome', n', answers'⟩ := PrimOp.exists_answers saturated' n
      exact ⟨outcome', n', (ends_execute_iff saturated').mpr (.inr ⟨values, _, again n, answers'⟩),
        answers.alike answers'⟩

/-- A thunk that is the only argument is not forced, and one that is given twice is forced
once. -/
theorem execute_strict_shared :
    let m : Machine :=
      { thunks := #[.pending (.eval (.lit (.scalar (.integer (.ofInt32 3)))) [])] }
    let three : Value := .scalar (.integer (.ofInt32 3))
    [Value.thunk 0].length ≠ PrimOp.integerAdd.arity ∧
    (Eval.execute (run 3) .integerAdd [.thunk 0]).Ends m
      (.error (.wrongArity "integerAdd" 2 1)) m ∧
    ∃ between, Eval.ForcesAll (run 3) m [.thunk 0, .thunk 0] [three, three] between ∧
      between.counters.thunksForced = 1 ∧ between.counters.memoHits = 1 ∧
      ∃ outcome m', (Eval.execute (run 3) .integerAdd [.thunk 0, .thunk 0]).Ends m outcome m' ∧
        (Eval.execute (run 1) .integerAdd [three, three]).Ends between outcome m' := by
  intro m three
  have mismatch : [Value.thunk 0].length ≠ PrimOp.integerAdd.arity := by decide
  have refused := ((execute_strict 3 .integerAdd [.thunk 0] m).1 mismatch _ _).mpr ⟨rfl, rfl⟩
  have forced : Eval.ForcesAll (run 3) m [.thunk 0, .thunk 0] [three, three]
      { thunks := #[.done three], counters := { thunksForced := 1, memoHits := 1 },
        journal := [.start 0] } := .cons rfl (.cons rfl (.nil _))
  have plain : ∀ value ∈ [three, three], value.isThunk = false := by simp [three, Value.isThunk]
  obtain ⟨outcome, m', ended, -, -, -, again⟩ :=
    ((execute_strict 3 .integerAdd [.thunk 0, .thunk 0] m).2 rfl).2 _ _ forced
  exact ⟨mismatch, refused, _, forced, rfl, rfl, outcome, m', ended, (again plain 0).1⟩

end CallByNeed
