import CallByNeed.PrimOp.Compute

set_option autoImplicit false

/-!
Expressions that the machine evaluates.

Nothing is forced unless an operation says so. The arguments of closures are
named by their place: the index in the argument list, and how many closure
bodies further out that list belongs.
-/

namespace CallByNeed

/-- Operations on values, applied after all operands have been evaluated. -/
inductive Operation where
  | force
  | apply
  | prim (op : PrimOp)
  | data (tag : UInt32)
  | field (index : Nat)
  | equal
  | typeName
  | tag
  | isThunk
  | isEvaluated
  | display
  | debug
  | done
  | newMutVar
  | read
  | newMVar
  | take
  | tryTake
  | isEmpty
  | same
  | unpackAppend (text : String)
  | foldText (text : String)
  | pack
  | fromList
  | toList
  deriving DecidableEq

inductive Expr where
  | lit (value : Literal)
  | reg (name : String)
  | arg (index depth : Nat)
  | thunk (body : Expr)
  | lam (arity : Nat) (name : Option String) (body : Expr)
  | perform (op : Operation) (operands : List Expr)
  | write (mutVar value : Expr)
  | modify (mutVar function : Expr)
  | put (mVar value : Expr)
  | tryPut (mVar value : Expr)
  | switch (scrutinee : Expr) (alternatives : List Expr) (otherwise : Expr)
  | die (message : String)
  | recover (body handler : Expr)
  | tick (label : String) (body : Expr)
  | seq (body : List Expr)
  | malformed

namespace Expr

instance : Inhabited Expr := ⟨.malformed⟩

def nil : Expr := .perform (.data 0) []

def cons (head tail : Expr) : Expr := .perform (.data 1) [head, tail]

/-- The lazy list of the characters of a text. -/
def unpack (text : String) : Expr := .perform (.unpackAppend text) [nil]

end Expr

/-- What a function definition fixes: how many arguments it takes, and its body. -/
structure Code where
  arity : Nat
  name : Option String
  body : Expr

end CallByNeed
