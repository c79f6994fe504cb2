import CallByNeed.Proofs.Correspondence

set_option autoImplicit false

/-!
Runs of corresponding tasks correspond.

From machines that are alike, every outcome of a task is also an outcome of the
corresponding task, with no less fuel, and the machines are alike again. Three
facts come out of this one induction: more fuel keeps a finished outcome, a run
does not depend on which identities are given out, and it uses no identity that
has not been given out.
-/

namespace CallByNeed

/-- Outcomes with related values, or with the same error. -/
inductive Outcomes {α β : Type} (R : α → β → Prop) : Except Error α → Except Error β → Prop where
  | ok {a : α} {b : β} : R a b → Outcomes R (.ok a) (.ok b)
  | error (e : Error) : Outcomes R (.error e) (.error e)

namespace Eval

open Correspondence

variable {α β γ δ : Type} (A : Alignment)

/-- From machines that are alike and at stage `k` or later, whatever ends on the left ends alike
on the right. The relation between the values may depend on the stage in the end. -/
def Simulates (k : A.Stage) (R : A.Stage → α → β → Prop) (x : Eval α) (y : Eval β) : Prop :=
  ∀ ⦃m n outcome m'⦄, k ≤ A.reached m → A.Machines m n → x.Ends m outcome m' →
    A.reached m ≤ A.reached m' ∧
    ∃ outcome' n', y.Ends n outcome' n' ∧ Outcomes (R (A.reached m')) outcome outcome' ∧
      A.Machines m' n'

variable {A} {k : A.Stage} {R : A.Stage → α → β → Prop} {S : A.Stage → γ → δ → Prop}

namespace Simulates

theorem pure {a : α} {b : β} (h : ∀ l, k ≤ l → R l a b) :
    Simulates A k R (Pure.pure a) (Pure.pure b) := by
  intro m n outcome m' le machines ended
  obtain ⟨rfl, rfl⟩ := ends_pure.mp ended
  exact ⟨le_refl _, .ok b, n, ends_pure.mpr ⟨rfl, rfl⟩, .ok (h _ le), machines⟩

theorem throw (e : Error) :
    Simulates A k R (MonadExcept.throw e) (MonadExcept.throw e) := by
  intro m n outcome m' le machines ended
  obtain ⟨rfl, rfl⟩ := ends_throw.mp ended
  exact ⟨le_refl _, .error e, n, ends_throw.mpr ⟨rfl, rfl⟩, .error e, machines⟩

theorem malformed : Simulates A k R Eval.malformed Eval.malformed := throw _

theorem outOfFuel (y : Eval β) : Simulates A k R (Eval.outOfFuel : Eval α) y := by
  intro m n outcome m' le machines ended
  exact absurd ended not_ends_outOfFuel

theorem bind {x : Eval α} {y : Eval β} {f : α → Eval γ} {g : β → Eval δ}
    (first : Simulates A k R x y)
    (second : ∀ l, k ≤ l → ∀ a b, R l a b → Simulates A l S (f a) (g b)) :
    Simulates A k S (x >>= f) (y >>= g) := by
  intro m n outcome m' le machines ended
  rcases ends_bind.mp ended with ⟨e, failed, rfl⟩ | ⟨a, between, done, rest⟩
  · obtain ⟨grown, _, n', failed', ⟨⟩, machines'⟩ := first le machines failed
    exact ⟨grown, .error e, n', failed'.bind_error, .error e, machines'⟩
  · obtain ⟨grown, _, n', done', ⟨related⟩, machines'⟩ := first le machines done
    obtain ⟨grown', outcome', n'', rest', outcomes, machines''⟩ :=
      second _ (le_trans le grown) a _ related (le_refl _) machines' rest
    exact ⟨le_trans grown grown', outcome', n'', done'.bind rest', outcomes, machines''⟩

theorem tryCatch {x : Eval α} {y : Eval β} {f : Error → Eval α} {g : Error → Eval β}
    (body : Simulates A k R x y) (handled : ∀ l, k ≤ l → ∀ e, Simulates A l R (f e) (g e)) :
    Simulates A k R (MonadExcept.tryCatch x f) (MonadExcept.tryCatch y g) := by
  intro m n outcome m' le machines ended
  rcases ends_tryCatch.mp ended with ⟨a, done, rfl⟩ | ⟨e, between, failed, rest⟩
  · obtain ⟨grown, _, n', done', ⟨related⟩, machines'⟩ := body le machines done
    exact ⟨grown, _, n', ends_tryCatch.mpr (.inl ⟨_, done', rfl⟩), .ok related, machines'⟩
  · obtain ⟨grown, _, n', failed', ⟨⟩, machines'⟩ := body le machines failed
    obtain ⟨grown', outcome', n'', rest', outcomes, machines''⟩ :=
      handled _ (le_trans le grown) e (le_refl _) machines' rest
    exact ⟨le_trans grown grown', outcome', n'',
      ends_tryCatch.mpr (.inr ⟨e, n', failed', rest'⟩), outcomes, machines''⟩

theorem get_bind {f : Machine → Eval α} {g : Machine → Eval β}
    (h : ∀ m n, k ≤ A.reached m → A.Machines m n →
      Simulates A (A.reached m) R (f m) (g n)) :
    Simulates A k R (get >>= f) (get >>= g) := by
  intro m n outcome m' le machines ended
  exact h m n le machines (le_refl _) machines ended

theorem modifyGet {f : Machine → α × Machine} {g : Machine → β × Machine}
    (h : ∀ m n, k ≤ A.reached m → A.Machines m n → A.reached m ≤ A.reached (f m).2 ∧
      R (A.reached (f m).2) (f m).1 (g n).1 ∧ A.Machines (f m).2 (g n).2) :
    Simulates A k R (MonadStateOf.modifyGet f) (MonadStateOf.modifyGet g) := by
  intro m n outcome m' le machines ended
  obtain ⟨rfl, rfl⟩ := ends_modifyGet.mp ended
  obtain ⟨grown, related, machines'⟩ := h m n le machines
  exact ⟨grown, _, _, ends_modifyGet.mpr ⟨rfl, rfl⟩, .ok related, machines'⟩

theorem modify {f g : Machine → Machine}
    (h : ∀ m n, k ≤ A.reached m → A.Machines m n →
      A.reached m ≤ A.reached (f m) ∧ A.Machines (f m) (g n)) :
    Simulates A k (fun _ _ _ => True) (modify f) (modify g) :=
  modifyGet fun m n le machines =>
    ⟨(h m n le machines).1, trivial, (h m n le machines).2⟩

theorem mapM {P : γ → δ → Prop} {cs : List γ} {ds : List δ} {f : γ → Eval Value}
    {g : δ → Eval Value}
    (each : ∀ l, k ≤ l → ∀ c d, P c d → Simulates A l A.Values (f c) (g d))
    (h : List.Forall₂ P cs ds) : Simulates A k A.Lists (cs.mapM f) (ds.mapM g) := by
  induction h generalizing k with
  | nil => exact pure fun _ _ => .nil
  | cons head _ ih =>
    rw [List.mapM_cons, List.mapM_cons]
    refine (each k (le_refl k) _ _ head).bind fun l le value value' values => ?_
    refine (ih fun j le' => each j (le_trans le le')).bind fun j le' rest rest' lists => ?_
    exact pure fun i le'' =>
      .cons (values.mono (A.mono (le_trans le' le''))) (Lists.mono (A.mono le'') lists)

theorem foldlM {cs : List γ} {f g : Value → γ → Eval Value} {acc acc' : Value}
    (each : ∀ l, k ≤ l → ∀ v w, A.Values l v w → ∀ c, Simulates A l A.Values (f v c) (g w c))
    (h : A.Values k acc acc') : Simulates A k A.Values (cs.foldlM f acc) (cs.foldlM g acc') := by
  induction cs generalizing k acc acc' with
  | nil => exact pure fun l le => h.mono (A.mono le)
  | cons c cs ih =>
    rw [List.foldlM_cons, List.foldlM_cons]
    exact (each k (le_refl k) _ _ h c).bind fun l le v w values =>
      ih (fun j le' => each j (le_trans le le')) values

end Simulates

/-! Cells, identities and literals -/

variable {m n : Machine}

theorem simulates_count (update : Counters → Counters) :
    Simulates A k (fun _ _ _ => True) (count update) (count update) :=
  .modify fun _ _ _ machines => ⟨le_refl _, machines.count update⟩

theorem simulates_note {event event' : Event} (events : (A.ids k).Events event event') :
    Simulates A k (fun _ _ _ => True) (note event) (note event') :=
  .modify fun _ _ le machines => ⟨le_refl _, { machines with
    contents := machines.contents.note (events.mono (A.mono le)) }⟩

theorem simulates_newData (tag : UInt32) {fields fields' : List Value}
    (lists : A.Lists k fields fields') :
    Simulates A k A.Values (newData tag fields) (newData tag fields') :=
  .modifyGet fun m _ le machines => by
    have later : A.reached m ≤ A.stage (m.nextData + 1) m.nextClosure m.thunks.size :=
      A.stage_le (Nat.le_succ _) le_rfl le_rfl
    exact ⟨later, .data (machines.nextData 0) (Lists.mono (A.mono (le_trans le later)) lists),
      machines.newData⟩

theorem simulates_newCell {cell cell' : Cell} (cells : (A.ids k).Cells cell cell') :
    Simulates A k A.Values (newCell cell) (newCell cell') := by
  refine .modifyGet fun m n le machines => ?_
  have later : A.reached m ≤ A.reached { m with thunks := m.thunks.push cell } :=
    A.stage_le le_rfl le_rfl (by simp)
  refine ⟨later, .thunk ?_ (A.held (by simp)), machines.newCell (cells.mono (A.mono le))⟩
  exact (A.mono later).thunk ▸ machines.nextThunk 0

theorem simulates_newThunk {computation computation' : Computation}
    (computations : (A.ids k).Computations computation computation') :
    Simulates A k A.Values (newThunk computation) (newThunk computation') :=
  (simulates_count _).bind fun _ le _ _ _ =>
    simulates_newCell (Cells.mono (A.mono le) (.pending computations))

theorem simulates_newClosure (code : Code) (missing : Nat) {scope scope' : Scope}
    {bound bound' : List Value} (scopes : (A.ids k).Scopes scope scope')
    (bounds : A.Lists k bound bound') :
    Simulates A k A.Values (newClosure code scope missing bound)
      (newClosure code scope' missing bound') := by
  refine (simulates_count _).bind fun l le _ _ _ => .modifyGet fun m n le' machines => ?_
  have later : A.reached m ≤ A.stage m.nextData (m.nextClosure + 1) m.thunks.size :=
    A.stage_le le_rfl (Nat.le_succ _) le_rfl
  have grown := le_trans (le_trans le le') later
  refine ⟨later, ?_, machines.newClosure⟩
  exact .closure (machines.nextClosure 0) (Scopes.mono (A.mono grown) scopes)
    (Lists.mono (A.mono grown) bounds)

theorem simulates_define (code : Code) {scope scope' : Scope}
    (scopes : (A.ids k).Scopes scope scope') :
    Simulates A k A.Values (define code scope) (define code scope') :=
  (simulates_note (.define code)).bind fun _ le _ _ _ =>
    simulates_newClosure code code.arity (Scopes.mono (A.mono le) scopes) .nil

theorem simulates_newMutVar {value value' : Value} (values : A.Values k value value') :
    Simulates A k A.Values (newMutVar value) (newMutVar value') := by
  refine .modifyGet fun m n le machines => ⟨le_refl _, ?_, { machines with
    contents := machines.contents.newMutVar (values.mono (A.mono le)) }⟩
  rw [machines.contents.mutVars_size]
  exact .mutVar _

theorem simulates_readMutVar (ref : Nat) :
    Simulates A k A.Values (readMutVar ref) (readMutVar ref) :=
  .get_bind fun _ _ _ machines => .pure fun _ le =>
    (machines.contents.mutVar ref).mono (A.mono le)

theorem simulates_writeMutVar (ref : Nat) {value value' : Value}
    (values : A.Values k value value') :
    Simulates A k (fun _ _ _ => True) (writeMutVar ref value) (writeMutVar ref value') :=
  .modify fun _ _ le machines => ⟨le_refl _, { machines with
    contents := machines.contents.writeMutVar ref (values.mono (A.mono le)) }⟩

theorem simulates_newMVar {content content' : Option Value}
    (contents : Option.Rel (A.Values k) content content') :
    Simulates A k A.Values (newMVar content) (newMVar content') := by
  refine .modifyGet fun m n le machines => ⟨le_refl _, ?_, { machines with
    contents := machines.contents.newMVar (rel_mono (A.mono le) contents) }⟩
  rw [machines.contents.mVars_size]
  exact .mVar _

theorem simulates_tryTake (ref : Nat) :
    Simulates A k (fun l => Option.Rel (A.Values l)) (tryTake ref) (tryTake ref) :=
  .modifyGet fun _ _ _ machines => ⟨le_refl _, machines.contents.mVar ref, { machines with
    contents := machines.contents.setMVar ref .none }⟩

theorem simulates_take (ref : Nat) : Simulates A k A.Values (take ref) (take ref) := by
  refine (simulates_tryTake ref).bind fun l _ content content' contents => ?_
  cases contents with
  | none => exact .throw _
  | some values => exact .pure fun _ le => values.mono (A.mono le)

theorem simulates_tryPut (ref : Nat) {value value' : Value} (values : A.Values k value value') :
    Simulates A k (fun _ => Eq) (tryPut ref value) (tryPut ref value') := by
  refine .modifyGet fun m n le machines => ?_
  have contents := machines.contents.mVar ref
  generalize m.mVar ref = before at contents
  generalize n.mVar ref = before' at contents
  cases contents with
  | none => exact ⟨le_refl _, rfl, { machines with
      contents := machines.contents.setMVar ref (.some (values.mono (A.mono le))) }⟩
  | some _ => exact ⟨le_refl _, rfl, machines⟩

theorem simulates_put (ref : Nat) {value value' : Value} (values : A.Values k value value') :
    Simulates A k (fun _ _ _ => True) (put ref value) (put ref value') := by
  refine (simulates_tryPut ref values).bind fun l _ stored stored' same => ?_
  subst same
  cases stored with
  | false => exact .throw _
  | true => exact .pure fun _ _ => trivial

@[simp] theorem reached_setCell (m : Machine) (ref : Nat) (cell : Cell) :
    A.reached (m.setCell ref cell) = A.reached m := by
  rw [Alignment.reached, Alignment.reached, Machine.setCell, Array.size_setIfInBounds]

theorem simulates_startCell {i j : Nat} (places : (A.ids k).thunk i j) :
    Simulates A k (fun _ _ _ => True) (startCell i) (startCell j) := by
  refine (simulates_count _).bind fun _ le _ _ _ => ?_
  have places' := (A.mono le).thunk ▸ places
  refine (simulates_note (.start places')).bind fun _ le' _ _ _ =>
    .modify fun m n le'' machines => ?_
  exact ⟨(reached_setCell m i .forcing).ge,
    machines.setCell ((A.mono (le_trans le' le'')).thunk ▸ places') .forcing⟩

theorem simulates_remember {i j : Nat} (places : (A.ids k).thunk i j) {x y : Eval Value}
    (body : Simulates A k A.Values x y) :
    Simulates A k A.Values (remember i x) (remember j y) := by
  intro m n outcome m' le machines ended
  obtain ⟨between, evaluated, rfl⟩ := ends_remember.mp ended
  obtain ⟨grown, outcome', n', evaluated', outcomes, machines'⟩ := body le machines evaluated
  have places' := (A.mono (le_trans le grown)).thunk ▸ places
  rw [reached_setCell]
  refine ⟨grown, outcome', _, ends_remember.mpr ⟨n', evaluated', rfl⟩, outcomes,
    machines'.setCell places' ?_⟩
  cases outcomes with
  | ok values => exact .done values
  | error e => exact .failed e

mutual

theorem simulates_instantiate {l : A.Stage} (literal : Literal) :
    Simulates A l A.Values (instantiate literal) (instantiate literal) := by
  cases literal with
  | scalar s =>
    rw [instantiate]
    exact .pure fun _ _ => .scalar s
  | data tag fields =>
    rw [instantiate]
    exact (simulates_instantiateAll fields).bind fun _ _ _ _ lists => simulates_newData tag lists

theorem simulates_instantiateAll {l : A.Stage} (literals : List Literal) :
    Simulates A l A.Lists (instantiateAll literals) (instantiateAll literals) := by
  cases literals with
  | nil =>
    rw [instantiateAll]
    exact .pure fun _ _ => .nil
  | cons field fields =>
    rw [instantiateAll]
    refine (simulates_instantiate field).bind fun _ _ _ _ values => ?_
    refine (simulates_instantiateAll fields).bind fun _ le _ _ lists => ?_
    exact .pure fun _ le' =>
      .cons (values.mono (A.mono (le_trans le le'))) (Lists.mono (A.mono le') lists)

end

theorem simulates_packChars {values values' : List Value} (lists : A.Lists k values values') :
    Simulates A k (fun _ => Eq) (packChars values) (packChars values') := by
  induction lists with
  | nil => exact .pure fun _ _ => rfl
  | cons head _ ih =>
    cases head with
    | scalar s =>
      cases s with
      | char c =>
        refine ih.bind fun _ _ chars chars' same => ?_
        subst same
        exact .pure fun _ _ => rfl
      | _ => exact .throw _
    | _ => exact .throw _

theorem simulates_listOfValues {values values' : List Value}
    (lists : A.Lists k values values') :
    Simulates A k A.Values (listOfValues values) (listOfValues values') := by
  induction lists with
  | nil => exact simulates_newData 0 .nil
  | cons head _ ih =>
    refine ih.bind fun _ le tail tail' tails => ?_
    refine (simulates_newCell (.done tails)).bind fun _ le' cell cell' cells => ?_
    exact simulates_newData 1
      (.cons (head.mono (A.mono (le_trans le le'))) (.cons cells .nil))

theorem simulates_performSame {a a' b b' : Value} (first : A.Values k a a')
    (second : A.Values k b b') :
    Simulates A k A.Values (performSame a b) (performSame a' b') := by
  cases first with
  | @thunk i j places =>
    cases second with
    | @thunk i' j' places' =>
      have same : (i == i') = (j == j') := by
        rw [Bool.eq_iff_iff, beq_iff_eq, beq_iff_eq]
        exact (A.oneToOne k).thunk_iff places places'
      rw [performSame, performSame, same]
      exact .pure fun _ _ => .scalar _
    | _ => exact .malformed
  | mutVar i =>
    cases second with
    | mutVar j => exact .pure fun _ _ => .scalar _
    | _ => exact .malformed
  | mVar i =>
    cases second with
    | mVar j => exact .pure fun _ _ => .scalar _
    | _ => exact .malformed
  | _ => exact .malformed

/-! Tasks, given that the tasks within them go alike -/

section Tasks

variable {run run' : Runner}
  (within : ∀ l task task', (A.ids l).Tasks task task' →
    Simulates A l A.Values (run task) (run' task'))
include within

theorem simulates_force {value value' : Value} (values : A.Values k value value') :
    Simulates A k A.Values (run (.force value)) (run' (.force value')) :=
  within k _ _ (.force values)

theorem simulates_apply {callee callee' : Value} {args args' : List Value}
    (callees : A.Values k callee callee') (lists : A.Lists k args args') :
    Simulates A k A.Values (run (.apply callee args)) (run' (.apply callee' args')) :=
  within k _ _ (.apply callees lists)

theorem simulates_eval (body : Expr) {scope scope' : Scope}
    (scopes : (A.ids k).Scopes scope scope') :
    Simulates A k A.Values (run (.eval body scope)) (run' (.eval body scope')) :=
  within k _ _ (.eval body scopes)

theorem simulates_unpack (chars : List Char) {rest rest' : Value}
    (values : A.Values k rest rest') :
    Simulates A k A.Values (unpack run chars rest) (unpack run' chars rest') := by
  cases chars with
  | nil => exact simulates_force within values
  | cons c chars =>
    exact (simulates_newThunk (.unpackRest chars values)).bind fun _ _ _ _ tails =>
      simulates_newData 1 (.cons (.scalar _) (.cons tails .nil))

theorem simulates_compute {computation computation' : Computation}
    (computations : (A.ids k).Computations computation computation') :
    Simulates A k A.Values (compute run computation) (compute run' computation') := by
  cases computations with
  | eval body scopes => exact simulates_eval within body scopes
  | unpackRest chars values => exact simulates_unpack within chars values
  | fail e => exact .throw e

theorem simulates_forceThunk {i j : Nat} (places : (A.ids k).thunk i j) :
    Simulates A k A.Values (forceThunk run i) (forceThunk run' j) := by
  refine .get_bind fun m n le machines => ?_
  have places' := (A.mono le).thunk ▸ places
  have cells := machines.contents.cell places'
  generalize m.cell i = cell at cells
  generalize n.cell j = cell' at cells
  cases cells with
  | done values =>
    exact (simulates_count _).bind fun _ le _ _ _ =>
      .pure fun _ le' => values.mono (A.mono (le_trans le le'))
  | failed e => exact .throw e
  | forcing => exact (simulates_count _).bind fun _ _ _ _ _ => .throw _
  | pending computations =>
    refine (simulates_startCell places').bind fun _ le _ _ _ =>
      simulates_remember ((A.mono le).thunk ▸ places') ?_
    exact (simulates_compute within (computations.mono (A.mono le))).bind fun _ _ _ _ values =>
      simulates_force within values

theorem simulates_forceValue {value value' : Value} (values : A.Values k value value') :
    Simulates A k A.Values (forceValue run value) (forceValue run' value') := by
  cases values with
  | thunk places => exact simulates_forceThunk within places
  | scalar s => exact .pure fun _ _ => .scalar s
  | data ids fields => exact .pure fun _ le => Values.mono (A.mono le) (.data ids fields)
  | closure ids scopes bounds =>
    exact .pure fun _ le => Values.mono (A.mono le) (.closure ids scopes bounds)
  | mutVar ref => exact .pure fun _ _ => .mutVar ref
  | mVar ref => exact .pure fun _ _ => .mVar ref

theorem simulates_enter (code : Code) {scope scope' : Scope} {args args' : List Value}
    (scopes : (A.ids k).Scopes scope scope') (lists : A.Lists k args args') :
    Simulates A k A.Values (enter run code scope args) (enter run' code scope' args') :=
  (simulates_note (.enter code lists)).bind fun _ le _ _ _ =>
    simulates_eval within code.body
      (Scopes.mono (A.mono le) (.cons lists scopes))

theorem simulates_applyForced {callee callee' : Value} {args args' : List Value}
    (callees : A.Values k callee callee') (lists : A.Lists k args args') :
    Simulates A k A.Values (applyForced run callee args) (applyForced run' callee' args') := by
  cases callees with
  | closure ids scopes bounds =>
    rename_i missing code scope scope' bound bound'
    have sameLength : args.length = args'.length := lists.length_eq
    have sameEmpty : args.isEmpty = args'.isEmpty := by cases lists <;> rfl
    rw [applyForced, applyForced, sameLength, sameEmpty]
    split
    · exact (simulates_count _).bind fun _ le _ _ _ =>
        simulates_enter within code (Scopes.mono (A.mono le) scopes)
          (Lists.mono (A.mono le) (List.rel_append bounds lists))
    · split
      · exact .pure fun _ le => Values.mono (A.mono le) (.closure ids scopes bounds)
      · split
        · exact (simulates_count _).bind fun _ le _ _ _ =>
            simulates_newClosure code _ (Scopes.mono (A.mono le) scopes)
              (Lists.mono (A.mono le) (List.rel_append bounds lists))
        · refine (simulates_count _).bind fun _ le _ _ _ => ?_
          refine (simulates_enter within code (Scopes.mono (A.mono le) scopes)
            (Lists.mono (A.mono le) (List.rel_append bounds
              (List.forall₂_take missing lists)))).bind fun _ le' _ _ results => ?_
          exact simulates_apply within results
            (Lists.mono (A.mono (le_trans le le')) (List.forall₂_drop missing lists))
  | scalar s => exact .pure fun _ _ => .scalar s
  | data ids fields => exact .pure fun _ le => Values.mono (A.mono le) (.data ids fields)
  | thunk places held => exact .pure fun _ le => Values.mono (A.mono le) (.thunk places held)
  | mutVar ref => exact .pure fun _ _ => .mutVar ref
  | mVar ref => exact .pure fun _ _ => .mVar ref

theorem simulates_forceAll {values values' : List Value} (lists : A.Lists k values values') :
    Simulates A k A.Lists (forceAll run values) (forceAll run' values') :=
  .mapM (fun _ le _ _ alike => simulates_force within (alike.mono (A.mono le))) lists

theorem simulates_execute (op : PrimOp) {args args' : List Value}
    (lists : A.Lists k args args') :
    Simulates A k A.Values (execute run op args) (execute run' op args') := by
  have sameLength : args.length = args'.length := lists.length_eq
  by_cases saturated : args.length = op.arity
  · rw [execute_of_length_eq saturated, execute_of_length_eq (sameLength ▸ saturated)]
    refine (simulates_forceAll within lists).bind fun _ _ values values' forced => ?_
    rw [Lists.map_operand_eq forced]
    split
    · exact simulates_instantiate _
    · exact .throw _
  · rw [execute_of_length_ne saturated, execute_of_length_ne (sameLength ▸ saturated), sameLength]
    exact .throw _

theorem simulates_unpackAppend (text : String) {rest rest' : Value}
    (values : A.Values k rest rest') :
    Simulates A k A.Values (unpackAppend run text rest) (unpackAppend run' text rest') :=
  (simulates_unpack within text.toList values).tryCatch fun _ _ e => simulates_newThunk (.fail e)

theorem simulates_foldText (text : String) {f f' z z' : Value} (functions : A.Values k f f')
    (starts : A.Values k z z') :
    Simulates A k A.Values (foldText run text f z) (foldText run' text f' z') :=
  .foldlM (fun _ le _ _ accs _ => simulates_apply within (functions.mono (A.mono le))
    (.cons (.scalar _) (.cons accs .nil))) starts

theorem simulates_listValues {fuel fuel' : Nat} (enough : fuel ≤ fuel') {list list' : Value}
    (values : A.Values k list list') :
    Simulates A k A.Lists (listValues run fuel list) (listValues run' fuel' list') := by
  induction fuel generalizing fuel' list list' k with
  | zero => exact .outOfFuel _
  | succ fuel ih =>
    obtain ⟨fuel', rfl⟩ : ∃ more, fuel' = more + 1 := ⟨fuel' - 1, by omega⟩
    rw [listValues, listValues]
    refine (simulates_force within values).bind fun l _ cell cell' cells => ?_
    split
    · cases cells with
      | data _ fields =>
        cases fields
        exact .pure fun _ _ => .nil
    · cases cells with
      | data _ fields =>
        obtain _ | ⟨heads, _ | ⟨tails, ⟨⟩⟩⟩ := fields
        refine (simulates_force within heads).bind fun _ le _ _ values => ?_
        refine (ih (Nat.le_of_succ_le_succ enough) (tails.mono (A.mono le))).bind
          fun _ le' _ _ lists => ?_
        exact .pure fun _ le'' =>
          .cons (values.mono (A.mono (le_trans le' le''))) (Lists.mono (A.mono le'') lists)
    · next noNil noCons =>
      split
      · cases cells with
        | data _ fields =>
          cases fields
          exact absurd rfl (noNil _)
      · cases cells with
        | data _ fields =>
          obtain _ | ⟨_, _ | ⟨_, ⟨⟩⟩⟩ := fields
          exact absurd rfl (noCons _ _ _)
      · rw [cells.typeName_eq]
        exact .throw _

theorem simulates_modifyMutVar (ref : Nat) {f f' : Value} (functions : A.Values k f f') :
    Simulates A k A.Values (modifyMutVar run ref f) (modifyMutVar run' ref f') := by
  refine (simulates_readMutVar ref).bind fun _ le _ _ contents => ?_
  refine (simulates_apply within (functions.mono (A.mono le)) (.cons contents .nil)).bind
    fun _ _ _ _ results => ?_
  refine (simulates_force within results).bind fun _ _ pair pair' pairs => ?_
  split
  · cases pairs with
    | data _ fields =>
      obtain _ | ⟨contents', _ | ⟨answers, ⟨⟩⟩⟩ := fields
      exact (simulates_writeMutVar ref contents').bind fun _ le _ _ _ =>
        .pure fun _ le' => answers.mono (A.mono (le_trans le le'))
  · next noPair =>
    split
    · cases pairs with
      | data _ fields =>
        obtain _ | ⟨_, _ | ⟨_, ⟨⟩⟩⟩ := fields
        exact absurd rfl (noPair _ _ _ _)
    · rw [pairs.typeName_eq]
      exact .throw _

theorem simulates_field (fuel fuel' index : Nat) {value value' : Value}
    (values : A.Values k value value') :
    Simulates A k A.Values (perform run fuel (.field index) [value])
      (perform run' fuel' (.field index) [value']) := by
  refine (simulates_force within values).bind fun l _ forced forced' found => ?_
  cases found with
  | @data _ _ _ fields fields' _ lists =>
    have alike := rel_getElem? lists index
    dsimp only
    generalize fields[index]? = field, fields'[index]? = field' at alike ⊢
    cases alike with
    | some values => exact .pure fun _ le => values.mono (A.mono le)
    | none => exact .malformed
  | _ => exact .malformed

theorem simulates_perform {fuel fuel' : Nat} (enough : fuel ≤ fuel') (op : Operation)
    {args args' : List Value} (lists : A.Lists k args args') :
    Simulates A k A.Values (perform run fuel op args) (perform run' fuel' op args') := by
  cases op with
  | prim op => exact simulates_execute within op lists
  | data tag => exact simulates_newData tag lists
  | fromList => exact simulates_listOfValues lists
  | apply =>
    obtain _ | ⟨callees, rest⟩ := lists
    · exact .malformed
    · exact simulates_apply within callees rest
  | force =>
    obtain _ | ⟨values, _ | _⟩ := lists
    · exact .malformed
    · exact simulates_force within values
    · exact .malformed
  | field index =>
    obtain _ | ⟨values, _ | _⟩ := lists
    · exact .malformed
    · exact simulates_field within fuel fuel' index values
    · exact .malformed
  | equal =>
    obtain _ | ⟨first, _ | ⟨second, _ | _⟩⟩ := lists
    · exact .malformed
    · exact .malformed
    · refine .pure fun _ _ => ?_
      rw [first.equal_eq (A.oneToOne k) second]
      exact .scalar _
    · exact .malformed
  | typeName =>
    obtain _ | ⟨values, _ | _⟩ := lists
    · exact .malformed
    · refine .pure fun _ _ => ?_
      rw [values.typeName_eq]
      exact .scalar _
    · exact .malformed
  | tag =>
    obtain _ | ⟨values, _ | _⟩ := lists
    · exact .malformed
    · rw [perform_tag, perform_tag, values.tag?_eq]
      split
      · exact .pure fun _ _ => .scalar _
      · exact .pure fun _ _ => .scalar _
    · exact .malformed
  | isThunk =>
    obtain _ | ⟨values, _ | _⟩ := lists
    · exact .malformed
    · refine .pure fun _ _ => ?_
      rw [values.isThunk_eq]
      exact .scalar _
    · exact .malformed
  | isEvaluated =>
    obtain _ | ⟨values, _ | _⟩ := lists
    · exact .malformed
    · cases values with
      | thunk places =>
        refine .get_bind fun m n le machines => ?_
        rw [(machines.contents.cell ((A.mono le).thunk ▸ places)).isDone_eq]
        exact .pure fun _ _ => .scalar _
      | _ => exact .malformed
    · cases values <;> exact .malformed
  | display =>
    obtain _ | ⟨values, _ | _⟩ := lists
    · exact .malformed
    · refine .get_bind fun m n le machines => ?_
      rw [machines.contents.display_eq (values.mono (A.mono le))]
      exact .pure fun _ _ => .scalar _
    · exact .malformed
  | debug =>
    obtain _ | ⟨values, _ | _⟩ := lists
    · exact .malformed
    · refine .get_bind fun m n le machines => ?_
      split
      · next shown =>
        rw [machines.contents.debug_eq enough (values.mono (A.mono le)) shown]
        exact .pure fun _ _ => .scalar _
      · exact .outOfFuel _
    · exact .malformed
  | done =>
    obtain _ | ⟨values, _ | _⟩ := lists
    · exact .malformed
    · exact simulates_newCell (.done values)
    · exact .malformed
  | newMutVar =>
    obtain _ | ⟨values, _ | _⟩ := lists
    · exact .malformed
    · exact simulates_newMutVar values
    · exact .malformed
  | read =>
    obtain _ | ⟨values, _ | _⟩ := lists
    · exact .malformed
    · cases values with
      | mutVar ref => exact simulates_readMutVar ref
      | _ => exact .malformed
    · cases values <;> exact .malformed
  | newMVar =>
    obtain _ | ⟨values, _ | _⟩ := lists
    · exact simulates_newMVar .none
    · exact simulates_newMVar (.some values)
    · exact .malformed
  | take =>
    obtain _ | ⟨values, _ | _⟩ := lists
    · exact .malformed
    · cases values with
      | mVar ref => exact simulates_take ref
      | _ => exact .malformed
    · cases values <;> exact .malformed
  | tryTake =>
    obtain _ | ⟨values, _ | _⟩ := lists
    · exact .malformed
    · cases values with
      | mVar ref =>
        refine (simulates_tryTake ref).bind fun _ _ _ _ contents => ?_
        cases contents with
        | none => exact simulates_newData 0 .nil
        | some values => exact simulates_newData 1 (.cons values .nil)
      | _ => exact .malformed
    · cases values <;> exact .malformed
  | isEmpty =>
    obtain _ | ⟨values, _ | _⟩ := lists
    · exact .malformed
    · cases values with
      | mVar ref =>
        refine .get_bind fun m n _ machines => ?_
        have contents := machines.contents.mVar ref
        generalize m.mVar ref = content, n.mVar ref = content' at contents ⊢
        cases contents <;> exact .pure fun _ _ => .scalar _
      | _ => exact .malformed
    · cases values <;> exact .malformed
  | same =>
    obtain _ | ⟨first, _ | ⟨second, _ | _⟩⟩ := lists
    · exact .malformed
    · exact .malformed
    · exact simulates_performSame first second
    · exact .malformed
  | unpackAppend text =>
    obtain _ | ⟨values, _ | _⟩ := lists
    · exact .malformed
    · exact simulates_unpackAppend within text values
    · exact .malformed
  | foldText text =>
    obtain _ | ⟨functions, _ | ⟨starts, _ | _⟩⟩ := lists
    · exact .malformed
    · exact .malformed
    · exact simulates_foldText within text functions starts
    · exact .malformed
  | pack =>
    obtain _ | ⟨values, _ | _⟩ := lists
    · exact .malformed
    · refine (simulates_listValues within enough values).bind fun _ _ _ _ lists => ?_
      refine (simulates_packChars lists).bind fun _ _ chars chars' same => ?_
      subst same
      exact .pure fun _ _ => .scalar _
    · exact .malformed
  | toList =>
    obtain _ | ⟨values, _ | _⟩ := lists
    · exact .malformed
    · exact (simulates_listValues within enough values).bind fun _ _ _ _ lists =>
        simulates_newData 0 lists
    · exact .malformed

theorem simulates_evalAll (exprs : List Expr) {scope scope' : Scope}
    (scopes : (A.ids k).Scopes scope scope') :
    Simulates A k A.Lists (evalAll run scope exprs) (evalAll run' scope' exprs) := by
  have same : List.Forall₂ Eq exprs exprs := List.forall₂_eq_eq_eq ▸ rfl
  refine .mapM (fun l le e e' equal => ?_) same
  subst equal
  exact simulates_eval within e (Scopes.mono (A.mono le) scopes)

omit within in
theorem simulates_arg (fuel fuel' index depth : Nat) {scope scope' : Scope}
    (scopes : (A.ids k).Scopes scope scope') :
    Simulates A k A.Values (evalExpr run fuel scope (.arg index depth))
      (evalExpr run' fuel' scope' (.arg index depth)) := by
  have found : Option.Rel (A.Values k) (scope[depth]?.bind fun args => args[index]?)
      (scope'[depth]?.bind fun args => args[index]?) := by
    have outer := rel_getElem? scopes depth
    generalize scope[depth]? = args, scope'[depth]? = args' at outer
    cases outer with
    | none => exact .none
    | some lists => exact rel_getElem? lists index
  rw [evalExpr, evalExpr]
  generalize (scope[depth]?.bind fun args => args[index]?) = value,
    (scope'[depth]?.bind fun args => args[index]?) = value' at found ⊢
  cases found with
  | none => exact .malformed
  | some values => exact .pure fun _ le => values.mono (A.mono le)

theorem simulates_evalExpr {fuel fuel' : Nat} (enough : fuel ≤ fuel') (body : Expr)
    {scope scope' : Scope} (scopes : (A.ids k).Scopes scope scope') :
    Simulates A k A.Values (evalExpr run fuel scope body) (evalExpr run' fuel' scope' body) := by
  have eval {l : A.Stage} (le : k ≤ l) (e : Expr) :
      Simulates A l A.Values (run (.eval e scope)) (run' (.eval e scope')) :=
    simulates_eval within e (Scopes.mono (A.mono le) scopes)
  have now {e : Expr} := eval (le_refl k) e
  cases body with
  | lit value => exact simulates_instantiate value
  | reg name =>
    refine .get_bind fun m n _ machines => ?_
    have found := machines.contents.register name
    generalize m.register? name = value, n.register? name = value' at found ⊢
    cases found with
    | none => exact .throw _
    | some values => exact .pure fun _ le => values.mono (A.mono le)
  | arg index depth => exact simulates_arg fuel fuel' index depth scopes
  | thunk body => exact simulates_newThunk (.eval body scopes)
  | lam arity name body => exact simulates_define _ scopes
  | perform op operands =>
    exact (simulates_evalAll within operands scopes).bind fun _ _ _ _ lists =>
      simulates_perform within enough op lists
  | write target value =>
    refine now.bind fun _ le _ _ places => ?_
    cases places with
    | mutVar ref =>
      exact (eval le value).bind fun _ _ _ _ contents =>
        (simulates_writeMutVar ref contents).bind fun _ _ _ _ _ => .pure fun _ _ => .scalar _
    | _ => exact .malformed
  | modify target function =>
    refine now.bind fun _ le _ _ places => ?_
    cases places with
    | mutVar ref =>
      exact (eval le function).bind fun _ _ _ _ functions =>
        simulates_modifyMutVar within ref functions
    | _ => exact .malformed
  | put target value =>
    refine now.bind fun _ le _ _ places => ?_
    cases places with
    | mVar ref =>
      exact (eval le value).bind fun _ _ _ _ contents =>
        (simulates_put ref contents).bind fun _ _ _ _ _ => .pure fun _ _ => .scalar _
    | _ => exact .malformed
  | tryPut target value =>
    refine now.bind fun _ le _ _ places => ?_
    cases places with
    | mVar ref =>
      refine (eval le value).bind fun _ _ _ _ contents => ?_
      refine (simulates_tryPut ref contents).bind fun _ _ stored stored' same => ?_
      subst same
      exact .pure fun _ _ => .scalar _
    | _ => exact .malformed
  | switch scrutinee alternatives otherwise =>
    refine now.bind fun _ le _ _ scrutinees => ?_
    refine (simulates_force within scrutinees).bind fun _ le' _ _ forced => ?_
    rw [forced.tag?_eq]
    split
    · exact eval (le_trans le le') _
    · exact eval (le_trans le le') _
  | die message => exact .throw _
  | recover body handler => exact now.tryCatch fun _ le _ => eval le handler
  | tick label body =>
    exact (simulates_note (.tick label)).bind fun _ le _ _ _ => eval le body
  | seq body =>
    exact (simulates_evalAll within body scopes).bind fun _ _ _ _ lists =>
      .pure fun _ le => (Lists.getLast lists).mono (A.mono le)
  | malformed => exact .malformed

theorem simulates_step {fuel fuel' : Nat} (enough : fuel ≤ fuel') {task task' : Task}
    (tasks : (A.ids k).Tasks task task') :
    Simulates A k A.Values (step run fuel task) (step run' fuel' task') := by
  cases tasks with
  | force values => exact simulates_forceValue within values
  | apply callees lists =>
    exact (simulates_force within callees).bind fun _ le _ _ forced =>
      simulates_applyForced within forced (Lists.mono (A.mono le) lists)
  | eval body scopes => exact simulates_evalExpr within enough body scopes

end Tasks

end Eval

/-- Corresponding tasks go alike, with more fuel too. -/
theorem run_simulates (A : Alignment) {fuel fuel' : Nat} {k : A.Stage} (enough : fuel ≤ fuel')
    {task task' : Task} (tasks : (A.ids k).Tasks task task') :
    Eval.Simulates A k A.Values (run fuel task) (run fuel' task') := by
  induction fuel generalizing fuel' k task task' with
  | zero => exact .outOfFuel _
  | succ fuel ih =>
    obtain ⟨fuel', rfl⟩ : ∃ more, fuel' = more + 1 := ⟨fuel' - 1, by omega⟩
    have enough' : fuel ≤ fuel' := Nat.le_of_succ_le_succ enough
    exact Eval.simulates_step (fun _ _ _ => ih enough') enough' tasks

end CallByNeed
