import CallByNeed.Machine.Eval

set_option autoImplicit false

/-!
Programs are lists of steps. Each step evaluates an expression and may keep the
value in a register; a step that fails changes no register, but keeps all else
that it did.
-/

namespace CallByNeed

structure Step where
  register : Option String
  body : Expr

/-- What a step shows: its value as seen from outside and as text, or its error; all
counters since the program began; and the labels ticked in this step. -/
structure Report where
  outcome : Except Error (Machine.Snapshot × String)
  counters : Counters
  trace : List String

namespace Program

/-- No program comes near this depth. -/
def depthLimit : Nat := 1000000000

def labels (events : List Event) : List String :=
  events.filterMap fun
    | .tick label => some label
    | _ => none

/-- The labels that `after` has ticked since `before`, in order. -/
def newLabels (before after : Machine) : List String :=
  labels (after.journal.take (after.journal.length - before.journal.length)).reverse

def keep (step : Step) (outcome : Except Error Value) (m : Machine) : Machine :=
  match step.register, outcome with
  | some name, .ok value => m.setRegister name value
  | _, _ => m

def runStep (fuel : Nat) (m : Machine) (step : Step) : Option (Report × Machine) := do
  let (outcome, after) ← (run fuel (.eval step.body [])).run.run m
  let shown := outcome.map fun value => (after.snapshot value, after.display value)
  return (⟨shown, after.counters, newLabels m after⟩, keep step outcome after)

/-- Nothing if the fuel runs out in some step. -/
def runFrom (fuel : Nat) : Machine → List Step → Option (List Report)
  | _, [] => some []
  | m, step :: steps => do
    let (report, next) ← runStep fuel m step
    return report :: (← runFrom fuel next steps)

def run (steps : List Step) : Option (List Report) := runFrom depthLimit {} steps

end Program

end CallByNeed
