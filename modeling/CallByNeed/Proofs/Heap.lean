import CallByNeed.Proofs.Invariant

set_option autoImplicit false

/-!
Data cells never change.

A heap says for each identity given out what tag and fields its data cell has.
The machine keeps no heap, but whatever a program does there is one that all
values agree with: a new cell is added at its end, and nothing in it is ever
replaced. So to be in the heap is an invariant of the evaluator, and the heap is
the world that grows.
-/

namespace CallByNeed

/-- What the data cells hold, by identity. -/
abbrev Heap := List (UInt32 × List Value)

/-- Every data cell in the value is as the heap has it, however deep inside. -/
inductive Value.In (heap : Heap) : Value → Prop where
  | scalar (s : Scalar) : In heap (.scalar s)
  | data {id : Nat} {tag : UInt32} {fields : List Value} :
      heap[id]? = some (tag, fields) → (∀ v ∈ fields, In heap v) → In heap (.data id tag fields)
  | closure (id : Nat) (code : Code) {scope : Scope} (missing : Nat) {bound : List Value} :
      (∀ args ∈ scope, ∀ v ∈ args, In heap v) → (∀ v ∈ bound, In heap v) →
      In heap (.closure id code scope missing bound)
  | thunk (ref : Nat) : In heap (.thunk ref)
  | mutVar (ref : Nat) : In heap (.mutVar ref)
  | mVar (ref : Nat) : In heap (.mVar ref)

/-- The heap has all cells made so far, and all that the machine holds is in it. -/
structure Machine.Within (heap : Heap) (m : Machine) : Prop where
  length : heap.length = m.nextData
  all : m.All (Value.In heap) fun _ _ => True

namespace Value.In

variable {heap later : Heap} {id : Nat} {tag : UInt32} {vs : List Value}

theorem mono (grown : heap <+: later) {v : Value} (h : v.In heap) : v.In later := by
  induction h with
  | data cell _ fields =>
    obtain ⟨rest, rfl⟩ := grown
    have inside := (List.getElem?_eq_some_iff.mp cell).1
    exact .data ((List.getElem?_append_left inside).trans cell) fields
  | closure id code missing _ _ scope bound => exact .closure id code missing scope bound
  | _ => constructor

theorem fields (h : (Value.data id tag vs).In heap) : ∀ v ∈ vs, v.In heap := by
  cases h with
  | data _ inside => exact inside

/-- Cells of one identity are the same cell. -/
theorem data_inj {tag' : UInt32} {vs' : List Value} (first : (Value.data id tag vs).In heap)
    (second : (Value.data id tag' vs').In heap) : tag = tag' ∧ vs = vs' := by
  cases first with
  | data holds _ =>
    cases second with
    | data holds' _ => simpa [holds] using holds'

/-- A cell is in the heap that has it at the end. -/
theorem concat (inside : ∀ v ∈ vs, v.In heap) :
    (Value.data heap.length tag vs).In (heap ++ [(tag, vs)]) :=
  .data List.getElem?_concat_length fun v member => (inside v member).mono (List.prefix_append _ _)

end Value.In

/-- Data cells are as the heap has them. -/
def inHeap : Invariant where
  World := Heap
  grows heap later := heap <+: later
  value heap := Value.In heap
  entered _ _ _ := True
  made heap count := heap.length = count
  refl _ := List.prefix_rfl
  trans := List.IsPrefix.trans
  value_mono grown h := h.mono grown
  entered_mono _ := id
  scalar _ := .scalar
  thunk _ := .thunk
  mutVar _ := .mutVar
  mVar _ := .mVar
  fields h := h.fields
  scope function := by
    cases function with
    | closure _ _ _ outer _ => exact outer
  bound function := by
    cases function with
    | closure _ _ _ _ inner => exact inner
  data tag made inside := by
    subst made
    exact ⟨_, List.prefix_append _ _, List.length_append, .concat inside⟩
  define id code outer := .closure id code _ outer (List.forall_mem_nil _)
  extend id' function inside _ := by
    cases function with
    | closure _ _ _ outer inner =>
      exact .closure id' _ _ outer (List.forall_mem_append.mpr ⟨inner, inside⟩)
  enter _ _ _ := trivial

/-- Wherever a program has come to, all data cells of one identity are the same. -/
theorem Program.Reached.within {m : Machine} (reached : Program.Reached m) :
    ∃ heap, m.Within heap := by
  obtain ⟨heap, holds⟩ := inHeap.holds_of_reached (w := []) rfl reached
  exact ⟨heap, holds.made, holds.all⟩

end CallByNeed
