import CallByNeed.Proofs.Invariant

set_option autoImplicit false

/-!
Closures keep their balance.

A closure is balanced if the arguments it misses and those it has make up the
arity of its code, and it misses some if it has any. That all closures are
balanced is an invariant of the evaluator, in a world of which nothing need be
known.
-/

namespace CallByNeed

/-- Every closure in the value is balanced, however deep inside. -/
inductive Value.Balanced : Value → Prop where
  | scalar (s : Scalar) : Balanced (.scalar s)
  | data (id : Nat) (tag : UInt32) {fields : List Value} :
      (∀ v ∈ fields, Balanced v) → Balanced (.data id tag fields)
  | closure (id : Nat) {code : Code} {scope : Scope} {missing : Nat} {bound : List Value} :
      missing + bound.length = code.arity → (bound ≠ [] → 1 ≤ missing) →
      (∀ args ∈ scope, ∀ v ∈ args, Balanced v) → (∀ v ∈ bound, Balanced v) →
      Balanced (.closure id code scope missing bound)
  | thunk (ref : Nat) : Balanced (.thunk ref)
  | mutVar (ref : Nat) : Balanced (.mutVar ref)
  | mVar (ref : Nat) : Balanced (.mVar ref)

/-- A body is entered with as many arguments as its code takes. -/
def Code.Saturated (code : Code) (args : List Value) : Prop :=
  args.length = code.arity ∧ ∀ v ∈ args, v.Balanced

def Task.Balanced (task : Task) : Prop := task.All Value.Balanced

/-- All that the machine holds is balanced, and all bodies that it entered had their
arguments. -/
def Machine.Balanced (m : Machine) : Prop := m.All Value.Balanced Code.Saturated

namespace Value.Balanced

variable {id missing : Nat} {code : Code} {scope : Scope} {bound args : List Value}

/-- A closure that gets fewer arguments than it misses is balanced again. -/
theorem extend (function : (Value.closure id code scope missing bound).Balanced)
    (all : ∀ v ∈ args, v.Balanced) (fewer : args.length < missing) (id' : Nat) :
    (Value.closure id' code scope (missing - args.length) (bound ++ args)).Balanced := by
  cases function with
  | closure _ sum _ outer inner =>
    refine .closure id' ?_ (fun _ => ?_) outer (List.forall_mem_append.mpr ⟨inner, all⟩)
    · rw [List.length_append]
      omega
    · omega

theorem saturated (function : (Value.closure id code scope missing bound).Balanced)
    (all : ∀ v ∈ args, v.Balanced) (exactly : args.length = missing) :
    code.Saturated (bound ++ args) := by
  cases function with
  | closure _ sum _ outer inner =>
    refine ⟨?_, List.forall_mem_append.mpr ⟨inner, all⟩⟩
    rw [List.length_append]
    omega

end Value.Balanced

/-- Closures are balanced. -/
def balance : Invariant where
  World := Unit
  grows _ _ := True
  value _ := Value.Balanced
  entered _ := Code.Saturated
  made _ _ := True
  refl _ := trivial
  trans _ _ := trivial
  value_mono _ := id
  entered_mono _ := id
  scalar _ := .scalar
  thunk _ := .thunk
  mutVar _ := .mutVar
  mVar _ := .mVar
  fields function := by
    cases function with
    | data _ _ all => exact all
  scope function := by
    cases function with
    | closure _ _ _ outer _ => exact outer
  bound function := by
    cases function with
    | closure _ _ _ _ inner => exact inner
  data tag _ all := ⟨(), trivial, trivial, .data _ tag all⟩
  define id _ outer :=
    .closure id rfl (fun nonempty => absurd rfl nonempty) outer (List.forall_mem_nil _)
  extend id' function all fewer := function.extend all fewer id'
  enter function all exactly := function.saturated all exactly

theorem Machine.Balanced.holds {m : Machine} (balanced : m.Balanced) : balance.Holds () m :=
  ⟨trivial, balanced⟩

theorem Program.Reached.balanced {m : Machine} (reached : Program.Reached m) : m.Balanced := by
  obtain ⟨_, holds⟩ := balance.holds_of_reached (w := ()) trivial reached
  exact holds.all

end CallByNeed
