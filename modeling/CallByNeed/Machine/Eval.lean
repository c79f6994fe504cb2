import CallByNeed.Machine.Text

set_option autoImplicit false

/-!
Call by need.

The machine has three tasks: force a value, apply a value to arguments, and
evaluate an expression. `step` does one task and leaves the tasks within it to
a runner; `run` ties the knot and spends one unit of fuel a level. So a property
of all runs follows from one of `step`, by induction on the fuel.
-/

namespace CallByNeed

inductive Task where
  | force (value : Value)
  | apply (callee : Value) (args : List Value)
  | eval (body : Expr) (scope : Scope)

namespace Eval

/-- Does the tasks within a task. -/
abbrev Runner := Task → Eval Value

variable (run : Runner)

/-! Thunks -/

/-- The list cell of the first character, with the others in its tail, or what `rest`
evaluates to. -/
def unpack : List Char → Value → Eval Value
  | [], rest => run (.force rest)
  | c :: chars, rest => do
    let tail ← newThunk (.unpackRest chars rest)
    newData 1 [.char c, tail]

def compute : Computation → Eval Value
  | .eval body scope => run (.eval body scope)
  | .unpackRest chars rest => unpack run chars rest
  | .fail e => throw e

/-- Marks the cell as running. -/
def startCell (ref : Nat) : Eval Unit := do
  count fun c => { c with thunksForced := c.thunksForced + 1 }
  note (.start ref)
  modify fun m => m.setCell ref .forcing

/-- A thunk that is done or failed answers from memory, and one that is running has met
itself. Otherwise its computation runs now, and a thunk that comes out is forced too. -/
def forceThunk (ref : Nat) : Eval Value := do
  match (← get).cell ref with
  | .done value =>
    count fun c => { c with memoHits := c.memoHits + 1 }
    return value
  | .failed e => throw e
  | .forcing =>
    count fun c => { c with blackHoles := c.blackHoles + 1 }
    throw .blackHole
  | .pending computation =>
    startCell ref
    remember ref do run (.force (← compute run computation))

def forceValue : Value → Eval Value
  | .thunk ref => forceThunk run ref
  | value => return value

/-! Application -/

def enter (code : Code) (scope : Scope) (args : List Value) : Eval Value := do
  note (.enter code args)
  run (.eval code.body (args :: scope))

/-- Applies a value that is not a thunk. What is no closure swallows its arguments. A
closure runs on exactly the arguments it misses, keeps fewer for later, and passes
what is over on to its result. -/
def applyForced (callee : Value) (args : List Value) : Eval Value :=
  match callee with
  | .closure _ code scope missing bound =>
    if args.length = missing then do
      count fun c => { c with exactCalls := c.exactCalls + 1 }
      enter run code scope (bound ++ args)
    else if args.isEmpty then return callee
    else if args.length < missing then do
      count fun c => { c with partialApplications := c.partialApplications + 1 }
      newClosure code scope (missing - args.length) (bound ++ args)
    else do
      count fun c => { c with overApplications := c.overApplications + 1 }
      let result ← enter run code scope (bound ++ args.take missing)
      run (.apply result (args.drop missing))
  | callee => return callee

/-! Primitive operations -/

def forceAll (values : List Value) : Eval (List Value) :=
  values.mapM fun value => run (.force value)

/-- The number of arguments is checked before any of them is forced. -/
def execute (op : PrimOp) (args : List Value) : Eval Value := do
  if args.length ≠ op.arity then throw (op.arityError args.length)
  let values ← forceAll run args
  match op.compute (values.map Value.operand) with
  | .ok result => instantiate result
  | .error e => throw e

/-! Lists -/

/-- The list of the characters and then `rest`. With no characters `rest` is forced at
once, and its error waits in a thunk. -/
def unpackAppend (text : String) (rest : Value) : Eval Value :=
  tryCatch (unpack run text.toList rest) fun e => newThunk (.fail e)

/-- Folds `f` over the characters from the last to the first. -/
def foldText (text : String) (f z : Value) : Eval Value :=
  text.toList.reverse.foldlM (fun acc c => run (.apply f [.char c, acc])) z

/-- Forces a list and all its elements. The fuel bounds its length. -/
def listValues : (fuel : Nat) → Value → Eval (List Value)
  | 0, _ => outOfFuel
  | fuel + 1, list => do
    match ← run (.force list) with
    | .data _ 0 [] => return []
    | .data _ 1 [head, tail] =>
      let value ← run (.force head)
      return value :: (← listValues fuel tail)
    | other => throw (.wrongType "list" "list" other.typeName)

def packChars : List Value → Eval (List Char)
  | [] => return []
  | .scalar (.char c) :: values => return c :: (← packChars values)
  | other :: _ => throw (.wrongType "packString" "Char" other.typeName)

/-- A list whose tails are evaluated thunks. -/
def listOfValues : List Value → Eval Value
  | [] => newData 0 []
  | value :: values => do
    let tail ← listOfValues values
    newData 1 [value, ← doneThunk tail]

/-! Mutable variables -/

/-- Applies `f` to the content. A result of two fields is the new content and the
answer; with any other the content stays. -/
def modifyMutVar (ref : Nat) (f : Value) : Eval Value := do
  let result ← run (.apply f [← readMutVar ref])
  match ← run (.force result) with
  | .data _ _ [content, answer] =>
    writeMutVar ref content
    return answer
  | other => throw (.wrongType "atomicModifyMutVar" "pair" other.typeName)

/-! Expressions -/

def performSame : Value → Value → Eval Value
  | .mutVar i, .mutVar j => return .bool (i == j)
  | .mVar i, .mVar j => return .bool (i == j)
  | .thunk i, .thunk j => return .bool (i == j)
  | _, _ => malformed

def perform (fuel : Nat) : Operation → List Value → Eval Value
  | .force, [v] => run (.force v)
  | .apply, f :: args => run (.apply f args)
  | .prim op, args => execute run op args
  | .data tag, fields => newData tag fields
  | .field index, [v] => do
    match ← run (.force v) with
    | .data _ _ fields =>
      match fields[index]? with
      | some field => return field
      | none => malformed
    | _ => malformed
  | .equal, [a, b] => return .bool (a.equal b)
  | .typeName, [v] => return .str v.typeName
  | .tag, [v] =>
    match v.tag? with
    | some tag => return .scalar (.word tag)
    | none => return .unit
  | .isThunk, [v] => return .bool v.isThunk
  | .isEvaluated, [.thunk ref] => return .bool ((← get).cell ref).isDone
  | .display, [v] => return .str ((← get).display v)
  | .debug, [v] => do
    match (← get).debug fuel v with
    | some text => return .str text
    | none => outOfFuel
  | .done, [v] => doneThunk v
  | .newMutVar, [v] => newMutVar v
  | .read, [.mutVar ref] => readMutVar ref
  | .newMVar, [] => newMVar none
  | .newMVar, [v] => newMVar (some v)
  | .take, [.mVar ref] => take ref
  | .tryTake, [.mVar ref] => do
    match ← tryTake ref with
    | none => newData 0 []
    | some v => newData 1 [v]
  | .isEmpty, [.mVar ref] => return .bool ((← get).mVar ref).isNone
  | .same, [a, b] => performSame a b
  | .unpackAppend text, [rest] => unpackAppend run text rest
  | .foldText text, [f, z] => foldText run text f z
  | .pack, [list] => do
    return .str (String.ofList (← packChars (← listValues run fuel list)))
  | .fromList, values => listOfValues values
  | .toList, [list] => do newData 0 (← listValues run fuel list)
  | _, _ => malformed

def evalAll (scope : Scope) (exprs : List Expr) : Eval (List Value) :=
  exprs.mapM fun e => run (.eval e scope)

/-- Subexpressions are evaluated from left to right. -/
def evalExpr (fuel : Nat) (scope : Scope) : Expr → Eval Value
  | .lit value => instantiate value
  | .reg name => do
    match (← get).register? name with
    | some value => return value
    | none => throw (.user s!"unbound {name}")
  | .arg index depth =>
    match scope[depth]?.bind fun args => args[index]? with
    | some value => return value
    | none => malformed
  | .thunk body => newThunk (.eval body scope)
  | .lam arity name body => define ⟨arity, name, body⟩ scope
  | .perform op operands => do perform run fuel op (← evalAll run scope operands)
  | .write target value => do
    match ← run (.eval target scope) with
    | .mutVar ref =>
      writeMutVar ref (← run (.eval value scope))
      return .unit
    | _ => malformed
  | .modify target function => do
    match ← run (.eval target scope) with
    | .mutVar ref => modifyMutVar run ref (← run (.eval function scope))
    | _ => malformed
  | .put target value => do
    match ← run (.eval target scope) with
    | .mVar ref =>
      put ref (← run (.eval value scope))
      return .unit
    | _ => malformed
  | .tryPut target value => do
    match ← run (.eval target scope) with
    | .mVar ref => return .bool (← tryPut ref (← run (.eval value scope)))
    | _ => malformed
  | .switch scrutinee alternatives otherwise => do
    let value ← run (.force (← run (.eval scrutinee scope)))
    match value.tag?.bind fun tag => alternatives[tag.toNat]? with
    | some alternative => run (.eval alternative scope)
    | none => run (.eval otherwise scope)
  | .die message => throw (.user message)
  | .recover body handler =>
    tryCatch (run (.eval body scope)) fun _ => run (.eval handler scope)
  | .tick label body => do
    note (.tick label)
    run (.eval body scope)
  | .seq body => do
    let values ← evalAll run scope body
    return values.getLast?.getD .unit
  | .malformed => malformed

def step (fuel : Nat) : Task → Eval Value
  | .force value => forceValue run value
  | .apply callee args => do applyForced run (← run (.force callee)) args
  | .eval body scope => evalExpr run fuel scope body

end Eval

/-- Does a task within the given depth. -/
def run : (fuel : Nat) → Task → Eval Value
  | 0, _ => Eval.outOfFuel
  | fuel + 1, task => Eval.step (run fuel) fuel task

end CallByNeed
