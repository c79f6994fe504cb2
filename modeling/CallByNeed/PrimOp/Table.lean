set_option autoImplicit false

/-!
The primitive operations. Programs refer to them by number or by name, so both
stay fixed; numbers are grouped by the kind of operand and leave gaps.
-/

namespace CallByNeed

inductive PrimOp where
  | integerAdd
  | integerSub
  | integerMul
  | integerQuot
  | integerRem
  | integerDiv
  | integerMod
  | integerQuotRem
  | integerDivMod
  | integerNegate
  | integerAbs
  | integerSignum
  | integerAnd
  | integerOr
  | integerXor
  | integerComplement
  | integerShiftL
  | integerShiftR
  | integerCompare
  | integerEq
  | integerToString
  | integerFromString
  | integerToInt
  | integerFromInt
  | integerToDouble
  | integerFromDouble
  | integerToInt64
  | integerFromInt64
  | integerToWord64
  | integerFromWord64
  | integerShorten
  | integerEncodeDouble
  | integerDecodeDouble
  | integerFromRat
  | int64Add
  | int64Sub
  | int64Mul
  | int64Quot
  | int64Rem
  | int64Div
  | int64Mod
  | int64Negate
  | int64And
  | int64Or
  | int64Xor
  | int64Not
  | int64ShiftL
  | int64ShiftRA
  | int64ShiftRL
  | int64Compare
  | int64Eq
  | int64FromInt
  | int64ToInt
  | int64FromDouble
  | int64ToDouble
  | word64Add
  | word64Sub
  | word64Mul
  | word64Quot
  | word64Rem
  | word64And
  | word64Or
  | word64Xor
  | word64Not
  | word64ShiftL
  | word64ShiftRL
  | word64Compare
  | word64Eq
  | word64ToInt64
  | word64FromInt64
  | intMul
  | intAddC
  | intSubC
  | intQuotRem
  | wordPopCnt
  | decodeFloat
  | dataToTag
  deriving DecidableEq

namespace PrimOp

structure Entry where
  id : Nat
  name : String
  arity : Nat
  /-- The name under which the table lists the operation. -/
  label : String

def entry : PrimOp → Entry
  | .integerAdd => ⟨0, "integerAdd", 2, "IntegerAdd"⟩
  | .integerSub => ⟨1, "integerSub", 2, "IntegerSub"⟩
  | .integerMul => ⟨2, "integerMul", 2, "IntegerMul"⟩
  | .integerQuot => ⟨3, "integerQuot", 2, "IntegerQuot"⟩
  | .integerRem => ⟨4, "integerRem", 2, "IntegerRem"⟩
  | .integerDiv => ⟨5, "integerDiv", 2, "IntegerDiv"⟩
  | .integerMod => ⟨6, "integerMod", 2, "IntegerMod"⟩
  | .integerQuotRem => ⟨7, "integerQuotRem", 2, "IntegerQuotRem"⟩
  | .integerDivMod => ⟨8, "integerDivMod", 2, "IntegerDivMod"⟩
  | .integerNegate => ⟨9, "integerNegate", 1, "IntegerNegate"⟩
  | .integerAbs => ⟨10, "integerAbs", 1, "IntegerAbs"⟩
  | .integerSignum => ⟨11, "integerSignum", 1, "IntegerSignum"⟩
  | .integerAnd => ⟨12, "integerAnd", 2, "IntegerAnd"⟩
  | .integerOr => ⟨13, "integerOr", 2, "IntegerOr"⟩
  | .integerXor => ⟨14, "integerXor", 2, "IntegerXor"⟩
  | .integerComplement => ⟨15, "integerComplement", 1, "IntegerComplement"⟩
  | .integerShiftL => ⟨16, "integerShiftL", 2, "IntegerShiftL"⟩
  | .integerShiftR => ⟨17, "integerShiftR", 2, "IntegerShiftR"⟩
  | .integerCompare => ⟨18, "integerCompare", 2, "IntegerCompare"⟩
  | .integerEq => ⟨19, "integerEq", 2, "IntegerEq"⟩
  | .integerToString => ⟨20, "integerToString", 2, "IntegerToString"⟩
  | .integerFromString => ⟨21, "integerFromString", 2, "IntegerFromString"⟩
  | .integerToInt => ⟨22, "integerToInt", 1, "IntegerToInt"⟩
  | .integerFromInt => ⟨23, "integerFromInt", 1, "IntegerFromInt"⟩
  | .integerToDouble => ⟨24, "integerToDouble", 1, "IntegerToDouble"⟩
  | .integerFromDouble => ⟨25, "integerFromDouble", 1, "IntegerFromDouble"⟩
  | .integerToInt64 => ⟨26, "integerToInt64", 1, "IntegerToInt64"⟩
  | .integerFromInt64 => ⟨27, "integerFromInt64", 1, "IntegerFromInt64"⟩
  | .integerToWord64 => ⟨28, "integerToWord64", 1, "IntegerToWord64"⟩
  | .integerFromWord64 => ⟨29, "integerFromWord64", 1, "IntegerFromWord64"⟩
  | .integerShorten => ⟨30, "integerShorten", 2, "IntegerShorten"⟩
  | .integerEncodeDouble => ⟨31, "integerEncodeDouble", 2, "IntegerEncodeDouble"⟩
  | .integerDecodeDouble => ⟨32, "integerDecodeDouble", 1, "IntegerDecodeDouble"⟩
  | .integerFromRat => ⟨33, "integerFromRat", 2, "IntegerFromRat"⟩
  | .int64Add => ⟨40, "int64Add", 2, "Int64Add"⟩
  | .int64Sub => ⟨41, "int64Sub", 2, "Int64Sub"⟩
  | .int64Mul => ⟨42, "int64Mul", 2, "Int64Mul"⟩
  | .int64Quot => ⟨43, "int64Quot", 2, "Int64Quot"⟩
  | .int64Rem => ⟨44, "int64Rem", 2, "Int64Rem"⟩
  | .int64Div => ⟨45, "int64Div", 2, "Int64Div"⟩
  | .int64Mod => ⟨46, "int64Mod", 2, "Int64Mod"⟩
  | .int64Negate => ⟨47, "int64Negate", 1, "Int64Negate"⟩
  | .int64And => ⟨48, "int64And", 2, "Int64And"⟩
  | .int64Or => ⟨49, "int64Or", 2, "Int64Or"⟩
  | .int64Xor => ⟨50, "int64Xor", 2, "Int64Xor"⟩
  | .int64Not => ⟨51, "int64Not", 1, "Int64Not"⟩
  | .int64ShiftL => ⟨52, "int64ShiftL", 2, "Int64ShiftL"⟩
  | .int64ShiftRA => ⟨53, "int64ShiftRA", 2, "Int64ShiftRA"⟩
  | .int64ShiftRL => ⟨54, "int64ShiftRL", 2, "Int64ShiftRL"⟩
  | .int64Compare => ⟨55, "int64Compare", 2, "Int64Compare"⟩
  | .int64Eq => ⟨56, "int64Eq", 2, "Int64Eq"⟩
  | .int64FromInt => ⟨57, "int64FromInt", 1, "Int64FromInt"⟩
  | .int64ToInt => ⟨58, "int64ToInt", 1, "Int64ToInt"⟩
  | .int64FromDouble => ⟨59, "int64FromDouble", 1, "Int64FromDouble"⟩
  | .int64ToDouble => ⟨60, "int64ToDouble", 1, "Int64ToDouble"⟩
  | .word64Add => ⟨70, "word64Add", 2, "Word64Add"⟩
  | .word64Sub => ⟨71, "word64Sub", 2, "Word64Sub"⟩
  | .word64Mul => ⟨72, "word64Mul", 2, "Word64Mul"⟩
  | .word64Quot => ⟨73, "word64Quot", 2, "Word64Quot"⟩
  | .word64Rem => ⟨74, "word64Rem", 2, "Word64Rem"⟩
  | .word64And => ⟨75, "word64And", 2, "Word64And"⟩
  | .word64Or => ⟨76, "word64Or", 2, "Word64Or"⟩
  | .word64Xor => ⟨77, "word64Xor", 2, "Word64Xor"⟩
  | .word64Not => ⟨78, "word64Not", 1, "Word64Not"⟩
  | .word64ShiftL => ⟨79, "word64ShiftL", 2, "Word64ShiftL"⟩
  | .word64ShiftRL => ⟨80, "word64ShiftRL", 2, "Word64ShiftRL"⟩
  | .word64Compare => ⟨81, "word64Compare", 2, "Word64Compare"⟩
  | .word64Eq => ⟨82, "word64Eq", 2, "Word64Eq"⟩
  | .word64ToInt64 => ⟨83, "word64ToInt64", 1, "Word64ToInt64"⟩
  | .word64FromInt64 => ⟨84, "word64FromInt64", 1, "Word64FromInt64"⟩
  | .intMul => ⟨100, "imul", 2, "IntMul"⟩
  | .intAddC => ⟨101, "addIntC", 2, "IntAddC"⟩
  | .intSubC => ⟨102, "subIntC", 2, "IntSubC"⟩
  | .intQuotRem => ⟨103, "quotRemInt", 2, "IntQuotRem"⟩
  | .wordPopCnt => ⟨104, "popCnt", 1, "WordPopCnt"⟩
  | .decodeFloat => ⟨105, "decodeFloat", 1, "DecodeFloat"⟩
  | .dataToTag => ⟨106, "dataToTag", 1, "DataToTag"⟩

def id (op : PrimOp) : Nat := op.entry.id

def name (op : PrimOp) : String := op.entry.name

def arity (op : PrimOp) : Nat := op.entry.arity

/-- All operations by ascending number. -/
def all : List PrimOp :=
  [.integerAdd, .integerSub, .integerMul, .integerQuot, .integerRem, .integerDiv, .integerMod,
   .integerQuotRem, .integerDivMod, .integerNegate, .integerAbs, .integerSignum, .integerAnd,
   .integerOr, .integerXor, .integerComplement, .integerShiftL, .integerShiftR, .integerCompare,
   .integerEq, .integerToString, .integerFromString, .integerToInt, .integerFromInt,
   .integerToDouble, .integerFromDouble, .integerToInt64, .integerFromInt64, .integerToWord64,
   .integerFromWord64, .integerShorten, .integerEncodeDouble, .integerDecodeDouble,
   .integerFromRat, .int64Add, .int64Sub, .int64Mul, .int64Quot, .int64Rem, .int64Div,
   .int64Mod, .int64Negate, .int64And, .int64Or, .int64Xor, .int64Not, .int64ShiftL,
   .int64ShiftRA, .int64ShiftRL, .int64Compare, .int64Eq, .int64FromInt, .int64ToInt,
   .int64FromDouble, .int64ToDouble, .word64Add, .word64Sub, .word64Mul, .word64Quot,
   .word64Rem, .word64And, .word64Or, .word64Xor, .word64Not, .word64ShiftL, .word64ShiftRL,
   .word64Compare, .word64Eq, .word64ToInt64, .word64FromInt64, .intMul, .intAddC, .intSubC,
   .intQuotRem, .wordPopCnt, .decodeFloat, .dataToTag]

theorem mem_all (op : PrimOp) : op ∈ all := by
  cases op <;> decide +kernel

def ofId? (id : Nat) : Option PrimOp := all.find? fun op => op.id == id

@[simp] theorem ofId?_id (op : PrimOp) : ofId? op.id = some op := by
  cases op <;> decide +kernel

def ofName? (name : String) : Option PrimOp := all.find? fun op => op.name == name

end PrimOp

end CallByNeed
