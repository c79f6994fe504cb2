import CallByNeed.Expr

set_option autoImplicit false

/-!
Values of the machine.

Data cells and closures have an identity, given when they are made. Thunks,
mutable variables and mailboxes are references into the machine. Equality looks
into data cells; everything else with an identity is equal only to itself. A
data cell is equal to itself whatever it holds.
-/

namespace CallByNeed

inductive Value where
  | scalar (s : Scalar)
  | data (id : Nat) (tag : UInt32) (fields : List Value)
  | closure (id : Nat) (code : Code) (scope : List (List Value)) (missing : Nat)
      (bound : List Value)
  | thunk (ref : Nat)
  | mutVar (ref : Nat)
  | mVar (ref : Nat)

/-- The argument lists of the enclosing closure bodies, innermost first. -/
abbrev Scope := List (List Value)

namespace Value

instance : Inhabited Value := ⟨.scalar .unit⟩

def unit : Value := .scalar .unit

def bool (b : Bool) : Value := .scalar (.bool b)

def char (c : Char) : Value := .scalar (.char c)

def str (s : String) : Value := .scalar (.str s)

def isThunk : Value → Bool
  | .thunk _ => true
  | _ => false

def typeName : Value → String
  | .scalar s => s.typeName
  | .data .. => "Data"
  | .closure .. => "Closure"
  | .thunk _ => "Thunk"
  | .mutVar _ => "MutVar"
  | .mVar _ => "MVar"

def operand : Value → Operand
  | .scalar s => .scalar s
  | .data _ tag _ => .data tag
  | v => .other v.typeName

def tag? (v : Value) : Option UInt32 := v.operand.tag?

mutual

def equal : Value → Value → Bool
  | .scalar a, .scalar b => a.equal b
  | .data i s as, .data j t bs => i == j || (s == t && equalAll as bs)
  | .closure i .., .closure j .. => i == j
  | .thunk i, .thunk j => i == j
  | .mutVar i, .mutVar j => i == j
  | .mVar i, .mVar j => i == j
  | _, _ => false

def equalAll : List Value → List Value → Bool
  | [], [] => true
  | a :: as, b :: bs => equal a b && equalAll as bs
  | _, _ => false

end

end Value

end CallByNeed
