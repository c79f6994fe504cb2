import CallByNeed.Value

set_option autoImplicit false

/-!
The state of the machine and the computations that change it.

A thunk is a cell that waits, runs, holds a value or holds the error it failed
with. Beside the cells the machine keeps counters and a journal of what
happened. A computation may end with a value, with an error, or not at all; the
state is kept in the first two cases.
-/

namespace CallByNeed

/-- What a thunk has still to do. -/
inductive Computation where
  | eval (body : Expr) (scope : Scope)
  | unpackRest (chars : List Char) (rest : Value)
  | fail (e : Error)

inductive Cell where
  | pending (computation : Computation)
  | forcing
  | done (value : Value)
  | failed (e : Error)

namespace Cell

def ofOutcome : Except Error Value → Cell
  | .ok value => .done value
  | .error e => .failed e

def isDone : Cell → Bool
  | .done _ => true
  | _ => false

end Cell

structure Counters where
  thunksCreated : Nat := 0
  thunksForced : Nat := 0
  memoHits : Nat := 0
  blackHoles : Nat := 0
  closures : Nat := 0
  exactCalls : Nat := 0
  partialApplications : Nat := 0
  overApplications : Nat := 0
  deriving DecidableEq

inductive Event where
  /-- A mark that the program sets itself. -/
  | tick (label : String)
  /-- The computation of a thunk starts. -/
  | start (ref : Nat)
  /-- A function definition is evaluated to a closure. -/
  | define (code : Code)
  /-- A body is entered with these arguments. -/
  | enter (code : Code) (args : List Value)

structure Machine where
  thunks : Array Cell := #[]
  mutVars : Array Value := #[]
  mVars : Array (Option Value) := #[]
  /-- The identity that the next data cell gets. -/
  nextData : Nat := 0
  /-- The identity that the next closure gets. -/
  nextClosure : Nat := 0
  registers : List (String × Value) := []
  counters : Counters := {}
  /-- What happened, latest first. -/
  journal : List Event := []

namespace Machine

/-- The cell of a thunk. References that the machine has given out always have one. -/
def cell (m : Machine) (ref : Nat) : Cell := m.thunks.getD ref .forcing

def setCell (m : Machine) (ref : Nat) (cell : Cell) : Machine :=
  { m with thunks := m.thunks.setIfInBounds ref cell }

@[simp]
theorem cell_setCell_self (m : Machine) {ref : Nat} (cell : Cell) (h : ref < m.thunks.size) :
    (m.setCell ref cell).cell ref = cell := by
  simp [setCell, Machine.cell, Array.getD_eq_getD_getElem?, h]

@[simp] theorem cell_setCell_of_ne (m : Machine) {ref other : Nat} (cell : Cell) (h : ref ≠ other) :
    (m.setCell ref cell).cell other = m.cell other := by
  simp [setCell, Machine.cell, Array.getD_eq_getD_getElem?, h]

def mutVar (m : Machine) (ref : Nat) : Value := m.mutVars.getD ref .unit

def mVar (m : Machine) (ref : Nat) : Option Value := m.mVars.getD ref none

def setMVar (m : Machine) (ref : Nat) (content : Option Value) : Machine :=
  { m with mVars := m.mVars.setIfInBounds ref content }

def register? (m : Machine) (name : String) : Option Value := m.registers.lookup name

def setRegister (m : Machine) (name : String) (value : Value) : Machine :=
  { m with registers := (name, value) :: m.registers }

end Machine

/-- A computation on the machine; nothing if its fuel runs out. -/
abbrev Eval := ExceptT Error (StateT Machine Option)

namespace Eval

variable {α : Type}

def outOfFuel : Eval α := ExceptT.mk fun _ => none

def malformed : Eval α := throw (.user "bad operand")

def count (update : Counters → Counters) : Eval Unit :=
  modify fun m => { m with counters := update m.counters }

def note (event : Event) : Eval Unit :=
  modify fun m => { m with journal := event :: m.journal }

def newData (tag : UInt32) (fields : List Value) : Eval Value :=
  modifyGet fun m => (.data m.nextData tag fields, { m with nextData := m.nextData + 1 })

def newCell (cell : Cell) : Eval Value :=
  modifyGet fun m => (.thunk m.thunks.size, { m with thunks := m.thunks.push cell })

def newThunk (computation : Computation) : Eval Value := do
  count fun c => { c with thunksCreated := c.thunksCreated + 1 }
  newCell (.pending computation)

/-- A thunk that holds its value from the start. -/
def doneThunk (value : Value) : Eval Value := newCell (.done value)

/-- A closure that misses some arguments and has others already. -/
def newClosure (code : Code) (scope : Scope) (missing : Nat) (bound : List Value) :
    Eval Value := do
  count fun c => { c with closures := c.closures + 1 }
  modifyGet fun m =>
    (.closure m.nextClosure code scope missing bound, { m with nextClosure := m.nextClosure + 1 })

def define (code : Code) (scope : Scope) : Eval Value := do
  note (.define code)
  newClosure code scope code.arity []

def newMutVar (value : Value) : Eval Value :=
  modifyGet fun m => (.mutVar m.mutVars.size, { m with mutVars := m.mutVars.push value })

def readMutVar (ref : Nat) : Eval Value := do
  return (← get).mutVar ref

def writeMutVar (ref : Nat) (value : Value) : Eval Unit :=
  modify fun m => { m with mutVars := m.mutVars.setIfInBounds ref value }

def newMVar (content : Option Value) : Eval Value :=
  modifyGet fun m => (.mVar m.mVars.size, { m with mVars := m.mVars.push content })

/-- Empties the mailbox. -/
def tryTake (ref : Nat) : Eval (Option Value) :=
  modifyGet fun m => (m.mVar ref, m.setMVar ref none)

def take (ref : Nat) : Eval Value := do
  match ← tryTake ref with
  | some value => return value
  | none => throw .emptyMVar

/-- Fills the mailbox if it is empty, and tells whether it was. -/
def tryPut (ref : Nat) (value : Value) : Eval Bool :=
  modifyGet fun m =>
    match m.mVar ref with
    | some _ => (false, m)
    | none => (true, m.setMVar ref (some value))

def put (ref : Nat) (value : Value) : Eval Unit := do
  if !(← tryPut ref value) then throw .fullMVar

/-- Runs a computation and keeps its outcome, value or error, in the cell. -/
def remember (ref : Nat) (computation : Eval Value) : Eval Value :=
  ExceptT.mk do
    let outcome ← computation.run
    modify fun m => m.setCell ref (Cell.ofOutcome outcome)
    return outcome

mutual

/-- The value of a literal, with a new identity for every data cell. -/
def instantiate : Literal → Eval Value
  | .scalar s => return .scalar s
  | .data tag fields => do newData tag (← instantiateAll fields)

def instantiateAll : List Literal → Eval (List Value)
  | [] => return []
  | field :: fields => do
    let value ← instantiate field
    return value :: (← instantiateAll fields)

end

end Eval

end CallByNeed
