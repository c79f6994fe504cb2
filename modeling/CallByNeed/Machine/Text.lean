import CallByNeed.Machine.Basic

set_option autoImplicit false

/-!
Values as text. `display` does not look behind references; `debug` shows what a
thunk, a mutable variable or a mailbox holds, and needs fuel because such values
may go round in a circle.
-/

namespace CallByNeed.Machine

variable (m : Machine)

def displayClosure (name : Option String) (missing : Nat) : String :=
  match name with
  | some name => s!"<closure {name}/{missing}>"
  | none => s!"<closure/{missing}>"

mutual

def display : Value → String
  | .scalar s => s.display
  | .data _ tag [] => s!"#{tag.toNat}"
  | .data _ tag fields => s!"#{tag.toNat}(" ++ ", ".intercalate (displayAll fields) ++ ")"
  | .closure _ code _ missing _ => displayClosure code.name missing
  | .thunk ref => if (m.cell ref).isDone then "<thunk evaluated>" else "<thunk>"
  | .mutVar _ => "<mutvar>"
  | .mVar _ => "<mvar>"

def displayAll : List Value → List String
  | [] => []
  | v :: vs => display v :: displayAll vs

end

def debugName : Option String → String
  | none => "None"
  | some name => s!"Some({Text.quote name})"

def debugList (items : List String) : String := "[" ++ ", ".intercalate items ++ "]"

def debugStruct (name : String) (body : String) : String :=
  name ++ " \x7b " ++ body ++ " \x7d"

/-- Nothing if the value is nested deeper than the fuel. -/
def debug : (fuel : Nat) → Value → Option String
  | 0, _ => none
  | fuel + 1, v =>
    match v with
    | .scalar s => some s.debug
    | .data _ tag fields => do
      let fields ← fields.mapM (debug fuel)
      let body := debugStruct "Data" s!"tag: {tag.toNat}, fields: {debugList fields}"
      return s!"Data({body})"
    | .closure _ code _ missing bound => do
      let bound ← bound.mapM (debug fuel)
      let body := debugStruct "Closure"
        s!"name: {debugName code.name}, arity: {missing}, bound: {debugList bound}, .."
      return s!"Closure({body})"
    | .thunk ref => do
      let content ← match m.cell ref with
        | .pending _ => some "<pending>"
        | .forcing => some "<forcing>"
        | .done value => debug fuel value
        | .failed e => some s!"<failed: {e.message}>"
      return s!"Thunk(Thunk({content}))"
    | .mutVar ref => do return s!"MutVar(MutVar({← debug fuel (m.mutVar ref)}))"
    | .mVar ref => do
      let content ← match m.mVar ref with
        | none => some "<empty>"
        | some value => debug fuel value
      return s!"MVar(MVar({content}))"

/-- What can be told of a value from outside. -/
inductive Snapshot where
  | scalar (s : Scalar)
  | data (tag : UInt32) (fields : List Snapshot)
  | closure (name : Option String) (missing : Nat) (bound : List Snapshot)
  | thunk (evaluated : Bool)
  | mutVar
  | mVar (empty : Bool)

mutual

def snapshot : Value → Snapshot
  | .scalar s => .scalar s
  | .data _ tag fields => .data tag (snapshotAll fields)
  | .closure _ code _ missing bound => .closure code.name missing (snapshotAll bound)
  | .thunk ref => .thunk (m.cell ref).isDone
  | .mutVar _ => .mutVar
  | .mVar ref => .mVar (m.mVar ref).isNone

def snapshotAll : List Value → List Snapshot
  | [] => []
  | v :: vs => snapshot v :: snapshotAll vs

end

end CallByNeed.Machine
