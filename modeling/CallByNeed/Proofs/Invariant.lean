import CallByNeed.Proofs.Renaming

set_option autoImplicit false

/-!
What the evaluator keeps.

An invariant is a property of values in a world that may grow while a computation runs. Its
laws say what the evaluator needs where it makes a data cell, defines a function, or extends
or enters a closure. `Agree` relates two computations that do the same wherever the property
holds of all values, and keep it. It is proved along the evaluator for two runners at once,
so that one of them may check what the other takes for granted.
-/

namespace CallByNeed

/-! Values that are held -/

section All

variable (P : Value → Prop)

def Scope.All (scope : Scope) : Prop := ∀ args ∈ scope, ∀ v ∈ args, P v

def Computation.All : Computation → Prop
  | .eval _ scope => Scope.All P scope
  | .unpackRest _ rest => P rest
  | .fail _ => True

def Cell.All : Cell → Prop
  | .pending computation => computation.All P
  | .done value => P value
  | .forcing | .failed _ => True

def Task.All : Task → Prop
  | .force value => P value
  | .apply callee args => P callee ∧ ∀ v ∈ args, P v
  | .eval _ scope => Scope.All P scope

end All

/-- The property holds of every body that was entered and its arguments. -/
def Event.All (E : Code → List Value → Prop) : Event → Prop
  | .enter code args => E code args
  | .tick _ | .start _ | .define _ => True

/-- All values that the machine holds have the first property, and all bodies that it entered
the second. -/
structure Machine.All (P : Value → Prop) (E : Code → List Value → Prop) (m : Machine) : Prop where
  cell : ∀ ref, (m.cell ref).All P
  mutVar : ∀ ref, P (m.mutVar ref)
  mVar : ∀ ref, ∀ v ∈ m.mVar ref, P v
  registers : ∀ entry ∈ m.registers, P entry.2
  journal : ∀ event ∈ m.journal, event.All E

section Laws

variable {P Q : Value → Prop} {E F : Code → List Value → Prop}

theorem Scope.All.cons {args : List Value} {scope : Scope} (head : ∀ v ∈ args, P v)
    (tail : Scope.All P scope) : Scope.All P (args :: scope) :=
  List.forall_mem_cons.mpr ⟨head, tail⟩

theorem Cell.all_ofOutcome {outcome : Except Error Value} (h : ∀ v, outcome = .ok v → P v) :
    (Cell.ofOutcome outcome).All P := by
  cases outcome with
  | error e => trivial
  | ok v => exact h v rfl

theorem Machine.all_empty (unit : P .unit) : Machine.All P E {} where
  cell _ := trivial
  mutVar _ := unit
  mVar _ _ member := nomatch member
  registers := List.forall_mem_nil _
  journal := List.forall_mem_nil _

section Mono

variable (values : ∀ v, P v → Q v)
include values

theorem Scope.All.mono {scope : Scope} (h : Scope.All P scope) : Scope.All Q scope :=
  fun args member v inside => values v (h args member v inside)

theorem Computation.All.mono {computation : Computation} (h : computation.All P) :
    computation.All Q := by
  cases computation with
  | eval body scope => exact Scope.All.mono values h
  | unpackRest chars rest => exact values rest h
  | fail e => trivial

theorem Cell.All.mono {cell : Cell} (h : cell.All P) : cell.All Q := by
  cases cell with
  | pending computation => exact Computation.All.mono values h
  | done value => exact values value h
  | forcing | failed => trivial

theorem Machine.All.mono (bodies : ∀ code args, E code args → F code args) {m : Machine}
    (h : m.All P E) : m.All Q F where
  cell ref := (h.cell ref).mono values
  mutVar ref := values _ (h.mutVar ref)
  mVar ref v member := values v (h.mVar ref v member)
  registers entry member := values _ (h.registers entry member)
  journal event member := by
    have before := h.journal event member
    cases event with
    | enter code args => exact bodies code args before
    | tick | start | define => trivial

end Mono

section Arrays

open Correspondence (getD_push_of_related getD_set_of_related)

variable {α : Type} {R : α → Prop} {as : Array α} {a d : α}

theorem getD_push_of_forall (each : ∀ i, R (as.getD i d)) (new : R a) (i : Nat) :
    R ((as.push a).getD i d) :=
  @getD_push_of_related _ _ (fun a _ => R a) as as a d a d i i (each i) new Iff.rfl

theorem getD_set_of_forall (each : ∀ i, R (as.getD i d)) (new : R a) (place i : Nat) :
    R ((as.setIfInBounds place a).getD i d) :=
  @getD_set_of_related _ _ (fun a _ => R a) as as a d a d i i (each i) new place place Iff.rfl
    Iff.rfl

end Arrays

namespace Machine.All

variable {m : Machine} (h : m.All P E)
include h

theorem register {name : String} {v : Value} (found : m.register? name = some v) : P v := by
  obtain ⟨before, after, split, -⟩ := List.lookup_eq_some_iff.mp found
  exact h.registers (name, v) (by simp [split])

theorem setRegister (name : String) {v : Value} (new : P v) : (m.setRegister name v).All P E :=
  { h with registers := List.forall_mem_cons.mpr ⟨new, h.registers⟩ }

theorem note {event : Event} (new : event.All E) :
    Machine.All P E { m with journal := event :: m.journal } :=
  { h with journal := List.forall_mem_cons.mpr ⟨new, h.journal⟩ }

theorem newCell {cell : Cell} (new : cell.All P) :
    Machine.All P E { m with thunks := m.thunks.push cell } :=
  { h with cell := getD_push_of_forall h.cell new }

theorem setCell (ref : Nat) {cell : Cell} (new : cell.All P) : (m.setCell ref cell).All P E :=
  { h with cell := getD_set_of_forall h.cell new ref }

theorem newMutVar {v : Value} (new : P v) :
    Machine.All P E { m with mutVars := m.mutVars.push v } :=
  { h with mutVar := getD_push_of_forall h.mutVar new }

theorem writeMutVar (ref : Nat) {v : Value} (new : P v) :
    Machine.All P E { m with mutVars := m.mutVars.setIfInBounds ref v } :=
  { h with mutVar := getD_set_of_forall h.mutVar new ref }

theorem newMVar {content : Option Value} (new : ∀ v ∈ content, P v) :
    Machine.All P E { m with mVars := m.mVars.push content } :=
  { h with mVar := @getD_push_of_forall _ (fun c => ∀ v ∈ c, P v) _ _ _ h.mVar new }

theorem setMVar (ref : Nat) {content : Option Value} (new : ∀ v ∈ content, P v) :
    (m.setMVar ref content).All P E :=
  { h with mVar := @getD_set_of_forall _ (fun c => ∀ v ∈ c, P v) _ _ _ h.mVar new ref }

end Machine.All

end Laws

/-! Invariants -/

/-- A property of values that the evaluator keeps, with the laws that it takes. -/
structure Invariant where
  World : Type
  grows : World → World → Prop
  value : World → Value → Prop
  /-- What holds of a body that is entered and its arguments. -/
  entered : World → Code → List Value → Prop
  /-- What holds of the number of data cells made so far. -/
  made : World → Nat → Prop
  refl (w : World) : grows w w
  trans {u v w : World} : grows u v → grows v w → grows u w
  value_mono {w w' : World} {v : Value} : grows w w' → value w v → value w' v
  entered_mono {w w' : World} {code : Code} {args : List Value} :
    grows w w' → entered w code args → entered w' code args
  scalar (w : World) (s : Scalar) : value w (.scalar s)
  thunk (w : World) (ref : Nat) : value w (.thunk ref)
  mutVar (w : World) (ref : Nat) : value w (.mutVar ref)
  mVar (w : World) (ref : Nat) : value w (.mVar ref)
  fields {w : World} {id : Nat} {tag : UInt32} {vs : List Value} :
    value w (.data id tag vs) → ∀ v ∈ vs, value w v
  scope {w : World} {id : Nat} {code : Code} {scope : Scope} {missing : Nat} {bound : List Value} :
    value w (.closure id code scope missing bound) → scope.All (value w)
  bound {w : World} {id : Nat} {code : Code} {scope : Scope} {missing : Nat} {bound : List Value} :
    value w (.closure id code scope missing bound) → ∀ v ∈ bound, value w v
  /-- The world grows with every new data cell. -/
  data {w : World} {id : Nat} {vs : List Value} (tag : UInt32) :
    made w id → (∀ v ∈ vs, value w v) →
      ∃ w', grows w w' ∧ made w' (id + 1) ∧ value w' (.data id tag vs)
  define {w : World} {scope : Scope} (id : Nat) (code : Code) :
    scope.All (value w) → value w (.closure id code scope code.arity [])
  extend {w : World} {id : Nat} {code : Code} {scope : Scope} {missing : Nat}
    {bound args : List Value} (id' : Nat) :
    value w (.closure id code scope missing bound) → (∀ v ∈ args, value w v) →
      args.length < missing →
      value w (.closure id' code scope (missing - args.length) (bound ++ args))
  enter {w : World} {id : Nat} {code : Code} {scope : Scope} {missing : Nat}
    {bound args : List Value} :
    value w (.closure id code scope missing bound) → (∀ v ∈ args, value w v) →
      args.length = missing → entered w code (bound ++ args)

namespace Invariant

attribute [simp] scalar thunk mutVar mVar

variable (I : Invariant)

def values (w : I.World) (vs : List Value) : Prop := ∀ v ∈ vs, I.value w v

def content (w : I.World) (content : Option Value) : Prop := ∀ v ∈ content, I.value w v

/-- The invariant holds of all that the machine holds. -/
structure Holds (w : I.World) (m : Machine) : Prop where
  made : I.made w m.nextData
  all : m.All (I.value w) (I.entered w)

variable {I} {w w' : I.World}

theorem values_mono (grown : I.grows w w') {vs : List Value} (h : I.values w vs) :
    I.values w' vs := fun v member => I.value_mono grown (h v member)

theorem scope_mono (grown : I.grows w w') {scope : Scope} (h : scope.All (I.value w)) :
    scope.All (I.value w') := h.mono fun _ => I.value_mono grown

@[simp] theorem value_char (c : Char) : I.value w (.char c) := I.scalar w _

@[simp] theorem values_nil : I.values w [] := List.forall_mem_nil _

@[simp] theorem values_cons {v : Value} {vs : List Value} :
    I.values w (v :: vs) ↔ I.value w v ∧ I.values w vs := List.forall_mem_cons

@[simp] theorem values_append {vs vs' : List Value} :
    I.values w (vs ++ vs') ↔ I.values w vs ∧ I.values w vs' := List.forall_mem_append

theorem values_getLast {vs : List Value} (h : I.values w vs) :
    I.value w (vs.getLast?.getD .unit) := by
  cases last : vs.getLast? with
  | none => exact I.scalar w .unit
  | some v => exact h v (List.mem_of_getLast? last)

@[simp] theorem content_none : I.content w none := fun _ member => nomatch member

@[simp] theorem content_some {v : Value} : I.content w (some v) ↔ I.value w v := by
  simp [content]

/-- A new data cell has an identity that was not given out. -/
theorem Holds.newData {m : Machine} (h : I.Holds w m) (tag : UInt32) {vs : List Value}
    (fields : I.values w vs) : ∃ w', I.grows w w' ∧
      I.Holds w' { m with nextData := m.nextData + 1 } ∧ I.value w' (.data m.nextData tag vs) := by
  obtain ⟨w', grown, made, new⟩ := I.data tag h.made fields
  refine ⟨w', grown, ⟨made, ?_⟩, new⟩
  have all := h.all.mono (fun _ => I.value_mono grown) fun _ _ => I.entered_mono grown
  exact { all with }

end Invariant

namespace Eval

variable {α β : Type} {I : Invariant} {w : I.World}

/-- Wherever the invariant holds both computations do the same. They keep it in a world that may
have grown, and give a value with the property there. -/
def Agree (I : Invariant) (w : I.World) (P : I.World → α → Prop) (x y : Eval α) : Prop :=
  ∀ m, I.Holds w m → x.run.run m = y.run.run m ∧
    ∀ outcome m', y.Ends m outcome m' →
      ∃ w', I.grows w w' ∧ I.Holds w' m' ∧ ∀ a, outcome = .ok a → P w' a

namespace Agree

variable {P : I.World → α → Prop} {Q : I.World → β → Prop}

theorem pure {a : α} (h : P w a) : Agree I w P (Pure.pure a) (Pure.pure a) := by
  intro m holds
  refine ⟨rfl, fun outcome m' ended => ?_⟩
  obtain ⟨rfl, rfl⟩ := ends_pure.mp ended
  refine ⟨w, I.refl w, holds, ?_⟩
  rintro _ ⟨⟩
  exact h

theorem throw (e : Error) : Agree I w P (MonadExcept.throw e) (MonadExcept.throw e) := by
  intro m holds
  refine ⟨rfl, fun outcome m' ended => ?_⟩
  obtain ⟨rfl, rfl⟩ := ends_throw.mp ended
  exact ⟨w, I.refl w, holds, fun _ same => nomatch same⟩

theorem malformed : Agree I w P Eval.malformed Eval.malformed := throw _

theorem outOfFuel : Agree I w P Eval.outOfFuel Eval.outOfFuel := fun _ _ =>
  ⟨rfl, fun _ _ ended => absurd ended not_ends_outOfFuel⟩

theorem bind {x y : Eval α} {f g : α → Eval β} (first : Agree I w P x y)
    (second : ∀ w', I.grows w w' → ∀ a, P w' a → Agree I w' Q (f a) (g a)) :
    Agree I w Q (x >>= f) (y >>= g) := by
  intro m holds
  obtain ⟨same, ends⟩ := first m holds
  constructor
  · show Option.bind (x.run.run m) _ = Option.bind (y.run.run m) _
    rw [same]
    cases ended : y.run.run m with
    | none => rfl
    | some result =>
      obtain ⟨e | a, m'⟩ := result
      · rfl
      · obtain ⟨w', grown, holds', has⟩ := ends _ _ ended
        exact (second w' grown a (has a rfl) m' holds').1
  · intro outcome m' ended
    rcases ends_bind.mp ended with ⟨e, failed, rfl⟩ | ⟨a, between, done, rest⟩
    · obtain ⟨w', grown, holds', -⟩ := ends _ _ failed
      exact ⟨w', grown, holds', fun _ same => nomatch same⟩
    · obtain ⟨w', grown, holds', has⟩ := ends _ _ done
      obtain ⟨last, grown', after⟩ := (second w' grown a (has a rfl) between holds').2 _ _ rest
      exact ⟨last, I.trans grown grown', after⟩

theorem tryCatch {x y : Eval α} {f g : Error → Eval α} (body : Agree I w P x y)
    (handled : ∀ w', I.grows w w' → ∀ e, Agree I w' P (f e) (g e)) :
    Agree I w P (MonadExcept.tryCatch x f) (MonadExcept.tryCatch y g) := by
  intro m holds
  obtain ⟨same, ends⟩ := body m holds
  constructor
  · show Option.bind (x.run.run m) _ = Option.bind (y.run.run m) _
    rw [same]
    cases ended : y.run.run m with
    | none => rfl
    | some result =>
      obtain ⟨e | a, m'⟩ := result
      · obtain ⟨w', grown, holds', -⟩ := ends _ _ ended
        exact (handled w' grown e m' holds').1
      · rfl
  · intro outcome m' ended
    rcases ends_tryCatch.mp ended with ⟨a, done, rfl⟩ | ⟨e, between, failed, rest⟩
    · exact ends _ _ done
    · obtain ⟨w', grown, holds', -⟩ := ends _ _ failed
      obtain ⟨last, grown', after⟩ := (handled w' grown e between holds').2 _ _ rest
      exact ⟨last, I.trans grown grown', after⟩

theorem get_bind {f g : Machine → Eval β}
    (h : ∀ m, m.All (I.value w) (I.entered w) → Agree I w Q (f m) (g m)) :
    Agree I w Q (get >>= f) (get >>= g) := fun m holds => h m holds.all m holds

/-- A change to the machine that makes no data cell. -/
theorem modifyGet {f : Machine → α × Machine} (same : ∀ m, (f m).2.nextData = m.nextData)
    (h : ∀ m, m.All (I.value w) (I.entered w) →
      P w (f m).1 ∧ (f m).2.All (I.value w) (I.entered w)) :
    Agree I w P (MonadStateOf.modifyGet f) (MonadStateOf.modifyGet f) := by
  intro m holds
  refine ⟨rfl, fun outcome m' ended => ?_⟩
  obtain ⟨rfl, rfl⟩ := ends_modifyGet.mp ended
  obtain ⟨has, all⟩ := h m holds.all
  refine ⟨w, I.refl w, ⟨?_, all⟩, ?_⟩
  · rw [same]
    exact holds.made
  · rintro _ ⟨⟩
    exact has

theorem modify {f : Machine → Machine} (same : ∀ m, (f m).nextData = m.nextData)
    (h : ∀ m, m.All (I.value w) (I.entered w) → (f m).All (I.value w) (I.entered w)) :
    Agree I w (fun _ _ => True) (modify f) (modify f) :=
  modifyGet same fun m holds => ⟨trivial, h m holds⟩

theorem mapM {as : List α} {f g : α → Eval Value}
    (each : ∀ w', I.grows w w' → ∀ a ∈ as, Agree I w' I.value (f a) (g a)) :
    Agree I w I.values (as.mapM f) (as.mapM g) := by
  induction as generalizing w with
  | nil => exact pure Invariant.values_nil
  | cons a as ih =>
    rw [List.mapM_cons, List.mapM_cons]
    refine (each w (I.refl w) a (by simp)).bind fun w' grown v first => ?_
    have rest := ih fun last grown' b member => each last (I.trans grown grown') b (by simp [member])
    refine rest.bind fun last grown' vs others => ?_
    exact pure (Invariant.values_cons.mpr ⟨I.value_mono grown' first, others⟩)

theorem foldlM {as : List α} {f g : Value → α → Eval Value} {acc : Value}
    (each : ∀ w', I.grows w w' → ∀ v a, I.value w' v → Agree I w' I.value (f v a) (g v a))
    (start : I.value w acc) : Agree I w I.value (as.foldlM f acc) (as.foldlM g acc) := by
  induction as generalizing w acc with
  | nil => exact pure start
  | cons a as ih =>
    rw [List.foldlM_cons, List.foldlM_cons]
    exact (each w (I.refl w) acc a start).bind fun w' grown v has =>
      ih (fun last grown' => each last (I.trans grown grown')) has

end Agree

/-! Cells, identities and literals -/

theorem agree_count (update : Counters → Counters) :
    Agree I w (fun _ _ => True) (count update) (count update) :=
  .modify (fun _ => rfl) fun _ all => { all with }

theorem agree_note (event : Event) (new : event.All (I.entered w)) :
    Agree I w (fun _ _ => True) (note event) (note event) :=
  .modify (fun _ => rfl) fun _ all => all.note new

theorem agree_newData (tag : UInt32) {vs : List Value} (fields : I.values w vs) :
    Agree I w I.value (newData tag vs) (newData tag vs) := by
  intro m holds
  refine ⟨rfl, fun outcome m' ended => ?_⟩
  obtain ⟨rfl, rfl⟩ := ends_modifyGet.mp ended
  obtain ⟨w', grown, holds', new⟩ := holds.newData tag fields
  refine ⟨w', grown, holds', ?_⟩
  rintro _ ⟨⟩
  exact new

theorem agree_newCell (cell : Cell) (new : cell.All (I.value w)) :
    Agree I w I.value (newCell cell) (newCell cell) :=
  .modifyGet (fun _ => rfl) fun _ all => ⟨I.thunk w _, all.newCell new⟩

theorem agree_newThunk (computation : Computation) (new : computation.All (I.value w)) :
    Agree I w I.value (newThunk computation) (newThunk computation) :=
  (agree_count _).bind fun _ grown _ _ =>
    agree_newCell (.pending computation) (new.mono fun _ => I.value_mono grown)

theorem agree_newClosure {code : Code} {scope : Scope} {missing : Nat} {bound : List Value}
    (new : ∀ id, I.value w (.closure id code scope missing bound)) :
    Agree I w I.value (newClosure code scope missing bound)
      (newClosure code scope missing bound) :=
  (agree_count _).bind fun _ grown _ _ => .modifyGet (fun _ => rfl) fun _ all =>
    ⟨I.value_mono grown (new _), { all with }⟩

theorem agree_define (code : Code) {scope : Scope} (outer : scope.All (I.value w)) :
    Agree I w I.value (define code scope) (define code scope) :=
  (agree_note (.define code) trivial).bind fun _ grown _ _ =>
    agree_newClosure fun id => I.define id code (Invariant.scope_mono grown outer)

theorem agree_newMutVar {v : Value} (new : I.value w v) :
    Agree I w I.value (newMutVar v) (newMutVar v) :=
  .modifyGet (fun _ => rfl) fun _ all => ⟨I.mutVar w _, all.newMutVar new⟩

theorem agree_readMutVar (ref : Nat) : Agree I w I.value (readMutVar ref) (readMutVar ref) :=
  .get_bind fun _ all => .pure (all.mutVar ref)

theorem agree_writeMutVar (ref : Nat) {v : Value} (new : I.value w v) :
    Agree I w (fun _ _ => True) (writeMutVar ref v) (writeMutVar ref v) :=
  .modify (fun _ => rfl) fun _ all => all.writeMutVar ref new

theorem agree_newMVar {content : Option Value} (new : I.content w content) :
    Agree I w I.value (newMVar content) (newMVar content) :=
  .modifyGet (fun _ => rfl) fun _ all => ⟨I.mVar w _, all.newMVar new⟩

theorem agree_tryTake (ref : Nat) : Agree I w I.content (tryTake ref) (tryTake ref) :=
  .modifyGet (fun _ => rfl) fun _ all => ⟨all.mVar ref, all.setMVar ref Invariant.content_none⟩

theorem agree_take (ref : Nat) : Agree I w I.value (take ref) (take ref) := by
  refine (agree_tryTake ref).bind fun _ _ content has => ?_
  cases content with
  | none => exact .throw _
  | some v => exact .pure (has v rfl)

theorem agree_tryPut (ref : Nat) {v : Value} (new : I.value w v) :
    Agree I w (fun _ _ => True) (tryPut ref v) (tryPut ref v) := by
  refine .modifyGet (fun m => ?_) fun m all => ⟨trivial, ?_⟩
  · cases m.mVar ref <;> rfl
  · cases m.mVar ref with
    | none => exact all.setMVar ref (Invariant.content_some.mpr new)
    | some _ => exact all

theorem agree_put (ref : Nat) {v : Value} (new : I.value w v) :
    Agree I w (fun _ _ => True) (put ref v) (put ref v) := by
  refine (agree_tryPut ref new).bind fun _ _ stored _ => ?_
  cases stored with
  | false => exact .throw _
  | true => exact .pure trivial

theorem agree_startCell (ref : Nat) :
    Agree I w (fun _ _ => True) (startCell ref) (startCell ref) :=
  (agree_count _).bind fun _ _ _ _ => (agree_note (.start ref) trivial).bind fun _ _ _ _ =>
    .modify (fun _ => rfl) fun _ all => all.setCell ref trivial

theorem agree_remember (ref : Nat) {x y : Eval Value} (body : Agree I w I.value x y) :
    Agree I w I.value (remember ref x) (remember ref y) := by
  intro m holds
  obtain ⟨same, ends⟩ := body m holds
  constructor
  · show Option.bind (x.run.run m) _ = Option.bind (y.run.run m) _
    rw [same]
  · intro outcome m' ended
    obtain ⟨between, evaluated, rfl⟩ := ends_remember.mp ended
    obtain ⟨w', grown, holds', has⟩ := ends _ _ evaluated
    exact ⟨w', grown, ⟨holds'.made, holds'.all.setCell ref (Cell.all_ofOutcome has)⟩, has⟩

mutual

theorem agree_instantiate (w : I.World) (literal : Literal) :
    Agree I w I.value (instantiate literal) (instantiate literal) := by
  cases literal with
  | scalar s =>
    rw [instantiate]
    exact .pure (I.scalar w s)
  | data tag fields =>
    rw [instantiate]
    exact (agree_instantiateAll w fields).bind fun _ _ _ has => agree_newData tag has

theorem agree_instantiateAll (w : I.World) (literals : List Literal) :
    Agree I w I.values (instantiateAll literals) (instantiateAll literals) := by
  cases literals with
  | nil =>
    rw [instantiateAll]
    exact .pure Invariant.values_nil
  | cons field fields =>
    rw [instantiateAll]
    refine (agree_instantiate w field).bind fun w' _ _ first => ?_
    exact (agree_instantiateAll w' fields).bind fun _ grown _ rest =>
      .pure (Invariant.values_cons.mpr ⟨I.value_mono grown first, rest⟩)

end

theorem agree_packChars (values : List Value) :
    Agree I w (fun _ _ => True) (packChars values) (packChars values) := by
  induction values generalizing w with
  | nil => exact .pure trivial
  | cons v values ih =>
    cases v with
    | scalar s =>
      cases s with
      | char c => exact ih.bind fun _ _ _ _ => .pure trivial
      | _ => exact .throw _
    | _ => exact .throw _

theorem agree_listOfValues {values : List Value} (all : I.values w values) :
    Agree I w I.value (listOfValues values) (listOfValues values) := by
  induction values generalizing w with
  | nil => exact agree_newData 0 all
  | cons v values ih =>
    obtain ⟨first, rest⟩ := Invariant.values_cons.mp all
    refine (ih rest).bind fun _ grown tail has => ?_
    refine (agree_newCell (.done tail) has).bind fun _ grown' cell made => ?_
    exact agree_newData 1 (by simp [I.value_mono (I.trans grown grown') first, made])

theorem agree_performSame (a b : Value) :
    Agree I w I.value (performSame a b) (performSame a b) := by
  unfold performSame
  split
  · exact .pure (I.scalar w _)
  · exact .pure (I.scalar w _)
  · exact .pure (I.scalar w _)
  · exact .malformed

/-! Tasks, given that the tasks within them agree -/

section Tasks

variable {run run' : Runner}
  (within : ∀ w task, task.All (I.value w) → Agree I w I.value (run task) (run' task))
include within

theorem agree_force {v : Value} (has : I.value w v) :
    Agree I w I.value (run (.force v)) (run' (.force v)) :=
  within w (.force v) has

theorem agree_apply {callee : Value} {args : List Value} (function : I.value w callee)
    (all : I.values w args) :
    Agree I w I.value (run (.apply callee args)) (run' (.apply callee args)) :=
  within w (.apply callee args) ⟨function, all⟩

theorem agree_eval (body : Expr) {scope : Scope} (outer : scope.All (I.value w)) :
    Agree I w I.value (run (.eval body scope)) (run' (.eval body scope)) :=
  within w (.eval body scope) outer

theorem agree_unpack (chars : List Char) {rest : Value} (has : I.value w rest) :
    Agree I w I.value (unpack run chars rest) (unpack run' chars rest) := by
  cases chars with
  | nil => exact agree_force within has
  | cons c chars =>
    refine (agree_newThunk (.unpackRest chars rest) has).bind fun _ _ tail made => ?_
    exact agree_newData 1 (by simp [made])

theorem agree_compute {computation : Computation} (all : computation.All (I.value w)) :
    Agree I w I.value (compute run computation) (compute run' computation) := by
  cases computation with
  | eval body scope => exact agree_eval within body all
  | unpackRest chars rest => exact agree_unpack within chars all
  | fail e => exact .throw e

theorem agree_forceThunk (ref : Nat) :
    Agree I w I.value (forceThunk run ref) (forceThunk run' ref) := by
  refine .get_bind fun m holds => ?_
  have all := holds.cell ref
  generalize m.cell ref = cell at all
  cases cell with
  | done v => exact (agree_count _).bind fun _ grown _ _ => .pure (I.value_mono grown all)
  | failed e => exact .throw e
  | forcing => exact (agree_count _).bind fun _ _ _ _ => .throw _
  | pending computation =>
    refine (agree_startCell ref).bind fun _ grown _ _ => agree_remember ref ?_
    have later := Computation.All.mono (fun _ => I.value_mono grown) all
    exact (agree_compute within later).bind fun _ _ _ computed => agree_force within computed

theorem agree_forceValue {v : Value} (has : I.value w v) :
    Agree I w I.value (forceValue run v) (forceValue run' v) := by
  cases v with
  | thunk ref => exact agree_forceThunk within ref
  | _ => exact .pure has

theorem agree_enter {code : Code} {scope : Scope} {args : List Value}
    (entered : I.entered w code args) (outer : scope.All (I.value w)) (inner : I.values w args) :
    Agree I w I.value (enter run code scope args) (enter run' code scope args) :=
  (agree_note (.enter code args) entered).bind fun _ grown _ _ => agree_eval within code.body
    (.cons (Invariant.values_mono grown inner) (Invariant.scope_mono grown outer))

theorem agree_applyForced {callee : Value} {args : List Value} (function : I.value w callee)
    (all : I.values w args) :
    Agree I w I.value (applyForced run callee args) (applyForced run' callee args) := by
  cases callee with
  | closure id code scope missing bound =>
    have body {w' : I.World} (grown : I.grows w w') {given : List Value}
        (has : I.values w given) (missed : given.length = missing) :
        Agree I w' I.value (enter run code scope (bound ++ given))
          (enter run' code scope (bound ++ given)) :=
      agree_enter within (I.entered_mono grown (I.enter function has missed))
        (Invariant.scope_mono grown (I.scope function))
        (Invariant.values_mono grown (Invariant.values_append.mpr ⟨I.bound function, has⟩))
    rw [applyForced, applyForced]
    split
    · next exactly => exact (agree_count _).bind fun _ grown _ _ => body grown all exactly
    split
    · exact .pure function
    split
    · next fewer =>
      exact (agree_count _).bind fun _ grown _ _ => agree_newClosure fun id' =>
        I.value_mono grown (I.extend id' function all fewer)
    · next other _ enough =>
      have taken : (args.take missing).length = missing := by
        rw [List.length_take]
        omega
      refine (agree_count _).bind fun _ grown _ _ => ?_
      refine (body grown (fun v member => all v (List.mem_of_mem_take member)) taken).bind
        fun _ grown' _ result => ?_
      exact agree_apply within result fun v member =>
        I.value_mono (I.trans grown grown') (all v (List.mem_of_mem_drop member))
  | _ => exact .pure function

theorem agree_forceAll {values : List Value} (all : I.values w values) :
    Agree I w I.values (forceAll run values) (forceAll run' values) :=
  .mapM fun _ grown v member => agree_force within (I.value_mono grown (all v member))

theorem agree_execute (op : PrimOp) {args : List Value} (all : I.values w args) :
    Agree I w I.value (execute run op args) (execute run' op args) := by
  by_cases saturated : args.length = op.arity
  · rw [execute_of_length_eq saturated, execute_of_length_eq saturated]
    refine (agree_forceAll within all).bind fun w' _ values _ => ?_
    split
    · exact agree_instantiate w' _
    · exact .throw _
  · rw [execute_of_length_ne saturated, execute_of_length_ne saturated]
    exact .throw _

theorem agree_unpackAppend (text : String) {rest : Value} (has : I.value w rest) :
    Agree I w I.value (unpackAppend run text rest) (unpackAppend run' text rest) :=
  (agree_unpack within text.toList has).tryCatch fun _ _ e => agree_newThunk (.fail e) trivial

theorem agree_foldText (text : String) {f z : Value} (function : I.value w f)
    (start : I.value w z) :
    Agree I w I.value (foldText run text f z) (foldText run' text f z) :=
  .foldlM (fun _ grown _ _ has => agree_apply within (I.value_mono grown function)
    (by simp [has])) start

theorem agree_listValues (fuel : Nat) {list : Value} (has : I.value w list) :
    Agree I w I.values (listValues run fuel list) (listValues run' fuel list) := by
  induction fuel generalizing w list with
  | zero => exact .outOfFuel
  | succ fuel ih =>
    rw [listValues, listValues]
    refine (agree_force within has).bind fun _ _ cell forced => ?_
    split
    · exact .pure Invariant.values_nil
    · have fields := I.fields forced
      refine (agree_force within (fields _ (by simp))).bind fun _ grown v first => ?_
      exact (ih (I.value_mono grown (fields _ (by simp)))).bind fun _ grown' _ rest =>
        .pure (Invariant.values_cons.mpr ⟨I.value_mono grown' first, rest⟩)
    · exact .throw _

theorem agree_modifyMutVar (ref : Nat) {f : Value} (function : I.value w f) :
    Agree I w I.value (modifyMutVar run ref f) (modifyMutVar run' ref f) := by
  refine (agree_readMutVar ref).bind fun _ grown content has => ?_
  refine (agree_apply within (I.value_mono grown function) (by simpa using has)).bind
    fun _ _ result made => ?_
  refine (agree_force within made).bind fun _ _ pair forced => ?_
  split
  · have fields := I.fields forced
    exact (agree_writeMutVar ref (fields _ (by simp))).bind fun _ grown' _ _ =>
      .pure (I.value_mono grown' (fields _ (by simp)))
  · exact .throw _

theorem agree_field (fuel index : Nat) {v : Value} (has : I.value w v) :
    Agree I w I.value (perform run fuel (.field index) [v])
      (perform run' fuel (.field index) [v]) := by
  refine (agree_force within has).bind fun _ _ forced forcedHas => ?_
  cases forced with
  | data id tag fields =>
    dsimp only
    cases found : fields[index]? with
    | none => exact .malformed
    | some field => exact .pure (I.fields forcedHas field (List.mem_of_getElem? found))
  | _ => exact .malformed

theorem agree_perform (fuel : Nat) (op : Operation) {args : List Value} (all : I.values w args) :
    Agree I w I.value (perform run fuel op args) (perform run' fuel op args) := by
  have first {v : Value} {vs : List Value} (all : I.values w (v :: vs)) : I.value w v :=
    (Invariant.values_cons.mp all).1
  cases op with
  | prim op => exact agree_execute within op all
  | data tag => exact agree_newData tag all
  | fromList => exact agree_listOfValues all
  | apply =>
    match args with
    | f :: args =>
      obtain ⟨function, rest⟩ := Invariant.values_cons.mp all
      exact agree_apply within function rest
    | [] => exact .malformed
  | force =>
    match args with
    | [_] => exact agree_force within (first all)
    | [] | _ :: _ :: _ => exact .malformed
  | field index =>
    match args with
    | [_] => exact agree_field within fuel index (first all)
    | [] | _ :: _ :: _ => exact .malformed
  | equal =>
    match args with
    | [_, _] => exact .pure (I.scalar w _)
    | [] | [_] | _ :: _ :: _ :: _ => exact .malformed
  | typeName | isThunk =>
    match args with
    | [_] => exact .pure (I.scalar w _)
    | [] | _ :: _ :: _ => exact .malformed
  | tag =>
    match args with
    | [_] =>
      rw [perform_tag, perform_tag]
      split
      · exact .pure (I.scalar w _)
      · exact .pure (I.scalar w _)
    | [] | _ :: _ :: _ => exact .malformed
  | isEvaluated =>
    match args with
    | [] => exact .malformed
    | [v] =>
      cases v with
      | thunk ref => exact .get_bind fun _ _ => .pure (I.scalar w _)
      | _ => exact .malformed
    | v :: _ :: _ => cases v <;> exact .malformed
  | display =>
    match args with
    | [_] => exact .get_bind fun _ _ => .pure (I.scalar w _)
    | [] | _ :: _ :: _ => exact .malformed
  | debug =>
    match args with
    | [_] =>
      refine .get_bind fun m _ => ?_
      split
      · exact .pure (I.scalar w _)
      · exact .outOfFuel
    | [] | _ :: _ :: _ => exact .malformed
  | done =>
    match args with
    | [v] => exact agree_newCell (.done v) (first all)
    | [] | _ :: _ :: _ => exact .malformed
  | newMutVar =>
    match args with
    | [_] => exact agree_newMutVar (first all)
    | [] | _ :: _ :: _ => exact .malformed
  | read =>
    match args with
    | [] => exact .malformed
    | [v] =>
      cases v with
      | mutVar ref => exact agree_readMutVar ref
      | _ => exact .malformed
    | v :: _ :: _ => cases v <;> exact .malformed
  | newMVar =>
    match args with
    | [] => exact agree_newMVar Invariant.content_none
    | [_] => exact agree_newMVar (Invariant.content_some.mpr (first all))
    | _ :: _ :: _ => exact .malformed
  | take =>
    match args with
    | [] => exact .malformed
    | [v] =>
      cases v with
      | mVar ref => exact agree_take ref
      | _ => exact .malformed
    | v :: _ :: _ => cases v <;> exact .malformed
  | tryTake =>
    match args with
    | [] => exact .malformed
    | [v] =>
      cases v with
      | mVar ref =>
        refine (agree_tryTake ref).bind fun _ _ content has => ?_
        cases content with
        | none => exact agree_newData 0 Invariant.values_nil
        | some v => exact agree_newData 1 (by simpa using has)
      | _ => exact .malformed
    | v :: _ :: _ => cases v <;> exact .malformed
  | isEmpty =>
    match args with
    | [] => exact .malformed
    | [v] =>
      cases v with
      | mVar ref => exact .get_bind fun _ _ => .pure (I.scalar w _)
      | _ => exact .malformed
    | v :: _ :: _ => cases v <;> exact .malformed
  | same =>
    match args with
    | [_, _] => exact agree_performSame _ _
    | [] | [_] | _ :: _ :: _ :: _ => exact .malformed
  | unpackAppend text =>
    match args with
    | [_] => exact agree_unpackAppend within text (first all)
    | [] | _ :: _ :: _ => exact .malformed
  | foldText text =>
    match args with
    | [_, _] =>
      obtain ⟨function, rest⟩ := Invariant.values_cons.mp all
      exact agree_foldText within text function (first rest)
    | [] | [_] | _ :: _ :: _ :: _ => exact .malformed
  | pack =>
    match args with
    | [_] =>
      exact (agree_listValues within fuel (first all)).bind fun _ _ values _ =>
        (agree_packChars values).bind fun _ _ _ _ => .pure (I.scalar _ _)
    | [] | _ :: _ :: _ => exact .malformed
  | toList =>
    match args with
    | [_] =>
      exact (agree_listValues within fuel (first all)).bind fun _ _ _ values =>
        agree_newData 0 values
    | [] | _ :: _ :: _ => exact .malformed

theorem agree_evalAll {scope : Scope} (outer : scope.All (I.value w)) (exprs : List Expr) :
    Agree I w I.values (evalAll run scope exprs) (evalAll run' scope exprs) :=
  .mapM fun _ grown e _ => agree_eval within e (Invariant.scope_mono grown outer)

theorem agree_evalExpr (fuel : Nat) {scope : Scope} (outer : scope.All (I.value w))
    (body : Expr) :
    Agree I w I.value (evalExpr run fuel scope body) (evalExpr run' fuel scope body) := by
  have eval (e : Expr) {w' : I.World} (grown : I.grows w w') :=
    agree_eval within e (Invariant.scope_mono grown outer)
  have now := I.refl w
  cases body with
  | lit literal => exact agree_instantiate w literal
  | reg name =>
    refine .get_bind fun m holds => ?_
    split
    · next found => exact .pure (holds.register found)
    · exact .throw _
  | arg index depth =>
    rw [evalExpr, evalExpr]
    split
    · next v found =>
      obtain ⟨args, level, place⟩ := Option.bind_eq_some_iff.mp found
      exact .pure (outer args (List.mem_of_getElem? level) v (List.mem_of_getElem? place))
    · exact .malformed
  | thunk body => exact agree_newThunk (.eval body scope) outer
  | lam arity name body => exact agree_define _ outer
  | perform op operands =>
    exact (agree_evalAll within outer operands).bind fun _ _ _ args =>
      agree_perform within fuel op args
  | write target value =>
    refine (eval target now).bind fun _ grown place _ => ?_
    split
    · exact (eval value grown).bind fun _ _ _ content =>
        (agree_writeMutVar _ content).bind fun _ _ _ _ => .pure (I.scalar _ _)
    · exact .malformed
  | modify target function =>
    refine (eval target now).bind fun _ grown place _ => ?_
    split
    · exact (eval function grown).bind fun _ _ _ f => agree_modifyMutVar within _ f
    · exact .malformed
  | put target value =>
    refine (eval target now).bind fun _ grown place _ => ?_
    split
    · exact (eval value grown).bind fun _ _ _ content =>
        (agree_put _ content).bind fun _ _ _ _ => .pure (I.scalar _ _)
    · exact .malformed
  | tryPut target value =>
    refine (eval target now).bind fun _ grown place _ => ?_
    split
    · exact (eval value grown).bind fun _ _ _ content =>
        (agree_tryPut _ content).bind fun _ _ _ _ => .pure (I.scalar _ _)
    · exact .malformed
  | switch scrutinee alternatives otherwise =>
    refine (eval scrutinee now).bind fun _ grown _ found => ?_
    refine (agree_force within found).bind fun _ grown' _ _ => ?_
    split
    · exact eval _ (I.trans grown grown')
    · exact eval _ (I.trans grown grown')
  | die message => exact .throw _
  | recover body handler => exact (eval body now).tryCatch fun _ grown _ => eval handler grown
  | tick label body =>
    exact (agree_note (.tick label) trivial).bind fun _ grown _ _ => eval body grown
  | seq body =>
    exact (agree_evalAll within outer body).bind fun _ _ _ values =>
      .pure (Invariant.values_getLast values)
  | malformed => exact .malformed

theorem agree_step (fuel : Nat) {task : Task} (all : task.All (I.value w)) :
    Agree I w I.value (step run fuel task) (step run' fuel task) := by
  cases task with
  | force v => exact agree_forceValue within all
  | apply callee args =>
    exact (agree_force within all.1).bind fun _ grown _ function =>
      agree_applyForced within function (Invariant.values_mono grown all.2)
  | eval body scope => exact agree_evalExpr within fuel all body

end Tasks

end Eval

/-! Runs and programs -/

/-- A run keeps the invariant. -/
theorem Invariant.agree_run (I : Invariant) (fuel : Nat) (w : I.World) (task : Task)
    (all : task.All (I.value w)) : Eval.Agree I w I.value (run fuel task) (run fuel task) := by
  induction fuel generalizing w task with
  | zero => exact .outOfFuel
  | succ fuel ih => exact Eval.agree_step ih fuel all

/-- An invariant of the empty machine holds wherever programs come to. -/
theorem Invariant.holds_of_reached (I : Invariant) {w : I.World} (start : I.made w 0)
    {m : Machine} (reached : Program.Reached m) : ∃ w', I.Holds w' m := by
  induction reached with
  | start => exact ⟨w, start, Machine.all_empty (I.scalar w .unit)⟩
  | @step fuel m _ step _ _ ran before =>
    obtain ⟨w, holds⟩ := before
    obtain ⟨outcome, after, ended, kept⟩ := Program.runStep_cases ran
    have body : Task.All (I.value w) (.eval step.body []) := List.forall_mem_nil _
    obtain ⟨w', -, holds', known⟩ := (I.agree_run fuel w _ body m holds).2 _ _ ended
    obtain rfl | ⟨name, value, result, rfl⟩ := kept
    · exact ⟨w', holds'⟩
    · exact ⟨w', holds'.made, holds'.all.setRegister name (known value result)⟩

end CallByNeed
