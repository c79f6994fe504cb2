import CallByNeed.Proofs.Outcome

set_option autoImplicit false

/-!
All that a computation can do to the machine.

`Effect` lists the changes once: counters and journal entries that go together,
new cells and identities, writes, and the evaluation of a pending cell, which
encloses the effects of its computation. `run_effects` says that every run is
such an effect. An invariant of the machine is then an induction over `Effect`.
Forcing opens the thunks that a computation gives, so a thunk can only come out
of it where an evaluated cell holds one (`run_findsThunks`).
-/

namespace CallByNeed

namespace Machine

theorem lt_size_of_cell_ne_forcing {m : Machine} {ref : Nat} (h : m.cell ref ≠ .forcing) :
    ref < m.thunks.size := by
  apply Nat.lt_of_not_le
  intro beyond
  exact h (by simp [cell, Array.getD_eq_getD_getElem?, beyond])

/-- The machine when the computation of a cell starts. -/
def started (m : Machine) (ref : Nat) : Machine :=
  { m with
    thunks := m.thunks.setIfInBounds ref .forcing
    counters := { m.counters with thunksForced := m.counters.thunksForced + 1 }
    journal := .start ref :: m.journal }

end Machine

inductive Effect : Machine → Machine → Prop where
  | refl (m : Machine) : Effect m m
  | trans {m₁ m₂ m₃ : Machine} : Effect m₁ m₂ → Effect m₂ m₃ → Effect m₁ m₃
  | memoHit (m : Machine) :
      Effect m { m with counters := { m.counters with memoHits := m.counters.memoHits + 1 } }
  | blackHole (m : Machine) :
      Effect m { m with counters := { m.counters with blackHoles := m.counters.blackHoles + 1 } }
  | tick (m : Machine) (label : String) :
      Effect m { m with journal := .tick label :: m.journal }
  | newData (m : Machine) : Effect m { m with nextData := m.nextData + 1 }
  | newThunk (m : Machine) (computation : Computation) :
      Effect m { m with
        thunks := m.thunks.push (.pending computation)
        counters := { m.counters with thunksCreated := m.counters.thunksCreated + 1 } }
  | doneThunk (m : Machine) (value : Value) :
      Effect m { m with thunks := m.thunks.push (.done value) }
  | define (m : Machine) (code : Code) :
      Effect m { m with
        nextClosure := m.nextClosure + 1
        counters := { m.counters with closures := m.counters.closures + 1 }
        journal := .define code :: m.journal }
  | partialApplication (m : Machine) :
      Effect m { m with
        nextClosure := m.nextClosure + 1
        counters := { m.counters with
          closures := m.counters.closures + 1
          partialApplications := m.counters.partialApplications + 1 } }
  | exactCall (m : Machine) (code : Code) (args : List Value) :
      Effect m { m with
        counters := { m.counters with exactCalls := m.counters.exactCalls + 1 }
        journal := .enter code args :: m.journal }
  | overApplication (m : Machine) (code : Code) (args : List Value) :
      Effect m { m with
        counters := { m.counters with overApplications := m.counters.overApplications + 1 }
        journal := .enter code args :: m.journal }
  | newMutVar (m : Machine) (value : Value) :
      Effect m { m with mutVars := m.mutVars.push value }
  | writeMutVar (m : Machine) (ref : Nat) (value : Value) :
      Effect m { m with mutVars := m.mutVars.setIfInBounds ref value }
  | newMVar (m : Machine) (content : Option Value) :
      Effect m { m with mVars := m.mVars.push content }
  | setMVar (m : Machine) (ref : Nat) (content : Option Value) :
      Effect m (m.setMVar ref content)
  /-- The cell is marked while its computation runs, and then keeps the outcome. If that is a
  thunk, it was found in an evaluated cell. -/
  | evaluate {m m' : Machine} {ref : Nat} {computation : Computation}
      (outcome : Except Error Value) : m.cell ref = .pending computation →
      Effect (m.started ref) m' →
      (∀ value, outcome = .ok value → value.isThunk = true →
        ∃ other, m'.cell other = .done value) →
      Effect m (m'.setCell ref (.ofOutcome outcome))

theorem Effect.size_le {m m' : Machine} (effect : Effect m m') :
    m.thunks.size ≤ m'.thunks.size := by
  induction effect with
  | trans _ _ first second => exact Nat.le_trans first second
  | newThunk | doneThunk => simp
  | evaluate _ _ _ _ inner => simpa [Machine.started, Machine.setCell] using inner
  | _ => exact Nat.le_refl _

namespace Eval

variable {α β : Type}

/-- Whatever the outcome, the computation has only effects of the machine. -/
def Effects (x : Eval α) : Prop := ∀ m outcome m', x.Ends m outcome m' → Effect m m'

theorem effects_pure (a : α) : (pure a : Eval α).Effects := by
  intro m outcome m' ended
  rw [(ends_pure.mp ended).2]
  exact .refl m

theorem effects_throw (e : Error) : (throw e : Eval α).Effects := by
  intro m outcome m' ended
  rw [(ends_throw.mp ended).2]
  exact .refl m

theorem effects_get : (get : Eval Machine).Effects := by
  intro m outcome m' ended
  rw [(ends_get.mp ended).2]
  exact .refl m

theorem effects_outOfFuel : (outOfFuel : Eval α).Effects := by
  intro m outcome m' ended
  exact absurd ended not_ends_outOfFuel

theorem effects_malformed : (malformed : Eval α).Effects := effects_throw _

theorem effects_modify {f : Machine → Machine} (h : ∀ m, Effect m (f m)) :
    (modify f : Eval Unit).Effects := by
  intro m outcome m' ended
  rw [(ends_modify.mp ended).2]
  exact h m

theorem effects_modifyGet {f : Machine → α × Machine} (h : ∀ m, Effect m (f m).2) :
    (modifyGet f : Eval α).Effects := by
  intro m outcome m' ended
  rw [(ends_modifyGet.mp ended).2]
  exact h m

theorem Effects.bind {x : Eval α} {f : α → Eval β} (first : x.Effects)
    (second : ∀ a, (f a).Effects) : (x >>= f).Effects := by
  intro m outcome m' ended
  rcases ends_bind.mp ended with ⟨e, failed, -⟩ | ⟨a, between, done, rest⟩
  · exact first _ _ _ failed
  · exact (first _ _ _ done).trans (second a _ _ _ rest)

theorem Effects.tryCatch {x : Eval α} {handler : Error → Eval α} (body : x.Effects)
    (handled : ∀ e, (handler e).Effects) : (tryCatch x handler).Effects := by
  intro m outcome m' ended
  rcases ends_tryCatch.mp ended with ⟨a, done, -⟩ | ⟨e, between, failed, rest⟩
  · exact body _ _ _ done
  · exact (body _ _ _ failed).trans (handled e _ _ _ rest)

theorem effects_mapM {f : α → Eval β} (each : ∀ a, (f a).Effects) (as : List α) :
    (as.mapM f).Effects := by
  induction as with
  | nil => exact effects_pure []
  | cons a as ih =>
    rw [List.mapM_cons]
    exact (each a).bind fun b => ih.bind fun bs => effects_pure (b :: bs)

theorem effects_foldlM {f : β → α → Eval β} (each : ∀ b a, (f b a).Effects) (b : β)
    (as : List α) : (as.foldlM f b).Effects := by
  induction as generalizing b with
  | nil => exact effects_pure b
  | cons a as ih =>
    rw [List.foldlM_cons]
    exact (each b a).bind ih

/-! Cells, identities and literals -/

theorem effects_newData (tag : UInt32) (fields : List Value) : (newData tag fields).Effects :=
  effects_modifyGet .newData

theorem effects_newThunk (computation : Computation) : (newThunk computation).Effects := by
  intro m outcome m' ended
  obtain ⟨-, rfl⟩ := (ends_iff_of_run rfl).mp ended
  exact .newThunk m computation

theorem effects_doneThunk (value : Value) : (doneThunk value).Effects :=
  effects_modifyGet fun m => .doneThunk m value

theorem effects_define (code : Code) (scope : Scope) : (define code scope).Effects := by
  intro m outcome m' ended
  obtain ⟨-, rfl⟩ := (ends_iff_of_run rfl).mp ended
  exact .define m code

theorem effects_tryTake (ref : Nat) : (tryTake ref).Effects :=
  effects_modifyGet fun m => .setMVar m ref none

theorem effects_take (ref : Nat) : (take ref).Effects := by
  refine (effects_tryTake ref).bind fun content => ?_
  cases content with
  | none => exact effects_throw _
  | some value => exact effects_pure value

theorem effects_tryPut (ref : Nat) (value : Value) : (tryPut ref value).Effects := by
  refine effects_modifyGet fun m => ?_
  cases m.mVar ref with
  | none => exact .setMVar m ref (some value)
  | some _ => exact .refl m

theorem effects_put (ref : Nat) (value : Value) : (put ref value).Effects := by
  refine (effects_tryPut ref value).bind fun stored => ?_
  cases stored with
  | false => exact effects_throw _
  | true => exact effects_pure ()

mutual

theorem effects_instantiate (literal : Literal) : (instantiate literal).Effects := by
  cases literal with
  | scalar s =>
    rw [instantiate]
    exact effects_pure _
  | data tag fields =>
    rw [instantiate]
    exact (effects_instantiateAll fields).bind fun values => effects_newData tag values

theorem effects_instantiateAll (literals : List Literal) : (instantiateAll literals).Effects := by
  cases literals with
  | nil =>
    rw [instantiateAll]
    exact effects_pure []
  | cons field fields =>
    rw [instantiateAll]
    exact (effects_instantiate field).bind fun value =>
      (effects_instantiateAll fields).bind fun values => effects_pure (value :: values)

end

theorem effects_packChars (values : List Value) : (packChars values).Effects := by
  fun_induction packChars values with
  | case1 => exact effects_pure []
  | case2 c values ih => exact ih.bind fun chars => effects_pure (c :: chars)
  | case3 => exact effects_throw _

theorem effects_listOfValues (values : List Value) : (listOfValues values).Effects := by
  induction values with
  | nil => exact effects_newData _ _
  | cons value values ih =>
    exact ih.bind fun tail => (effects_doneThunk tail).bind fun cell => effects_newData _ _

theorem effects_performSame (a b : Value) : (performSame a b).Effects := by
  fun_cases performSame a b
  · exact effects_pure _
  · exact effects_pure _
  · exact effects_pure _
  · exact effects_malformed

@[simp] theorem ends_startCell_bind {ref : Nat} {f : Unit → Eval β} {m m' : Machine}
    {outcome : Except Error β} :
    (startCell ref >>= f).Ends m outcome m' ↔ (f ()).Ends (m.started ref) outcome m' :=
  Iff.rfl

/-- A thunk that comes out of forcing is what an evaluated cell holds. -/
def Runner.FindsThunks (run : Runner) : Prop :=
  ∀ value m found m', (run (.force value)).Ends m (.ok found) m' → found.isThunk = true →
    ∃ ref, m'.cell ref = .done found

/-! Tasks, given that the tasks within them have only effects of the machine -/

section Tasks

variable {run : Runner} (within : ∀ task, (run task).Effects)
include within

theorem effects_unpack (chars : List Char) (rest : Value) : (unpack run chars rest).Effects := by
  cases chars with
  | nil => exact within (.force rest)
  | cons c chars => exact (effects_newThunk _).bind fun tail => effects_newData _ _

theorem effects_compute (computation : Computation) : (compute run computation).Effects := by
  cases computation with
  | eval body scope => exact within (.eval body scope)
  | unpackRest chars rest => exact effects_unpack within chars rest
  | fail e => exact effects_throw e

theorem effects_forceThunk (finds : run.FindsThunks) (ref : Nat) :
    (forceThunk run ref).Effects := by
  intro m outcome m' ended
  rw [forceThunk, ends_get_bind] at ended
  split at ended
  · obtain ⟨-, rfl⟩ := (ends_iff_of_run rfl).mp ended
    exact .memoHit m
  · exact effects_throw _ _ _ _ ended
  · obtain ⟨-, rfl⟩ := (ends_iff_of_run rfl).mp ended
    exact .blackHole m
  · next computation pending =>
    have remembered := (ends_startCell_bind).mp ended
    obtain ⟨between, evaluated, rfl⟩ := ends_remember.mp remembered
    have computed : Effect (m.started ref) between :=
      (effects_compute within computation).bind (fun value => within (.force value)) _ _ _ evaluated
    refine .evaluate outcome pending computed fun value isOk isThunk => ?_
    subst isOk
    rcases ends_bind.mp evaluated with ⟨e, -, impossible⟩ | ⟨first, _, -, forced⟩
    · cases impossible
    · exact finds first _ value between forced isThunk

theorem effects_forceValue (finds : run.FindsThunks) (value : Value) :
    (forceValue run value).Effects := by
  cases value with
  | thunk ref => exact effects_forceThunk within finds ref
  | _ => exact effects_pure _

/-- What comes out of forcing a thunk is then in its cell. -/
theorem cell_of_forceThunk {ref : Nat} {m m' : Machine} {found : Value}
    (ended : (forceThunk run ref).Ends m (.ok found) m') : m'.cell ref = .done found := by
  rw [forceThunk, ends_get_bind] at ended
  split at ended
  · next done =>
    obtain ⟨same, rfl⟩ := (ends_iff_of_run rfl).mp ended
    cases same
    exact done
  · cases (ends_throw.mp ended).1
  · cases ((ends_iff_of_run rfl).mp ended).1
  · next computation pending =>
    obtain ⟨between, evaluated, rfl⟩ := ends_remember.mp (ends_startCell_bind.mp ended)
    have computed : Effect (m.started ref) between :=
      (effects_compute within computation).bind (fun value => within (.force value)) _ _ _ evaluated
    have present : ref < (m.started ref).thunks.size := by
      rw [Machine.started, Array.size_setIfInBounds]
      exact Machine.lt_size_of_cell_ne_forcing (by simp [pending])
    exact between.cell_setCell_self _ (Nat.lt_of_lt_of_le present computed.size_le)

theorem findsThunks_step (fuel : Nat) : Runner.FindsThunks (step run fuel) := by
  intro value m found m' ended isThunk
  cases value with
  | thunk ref => exact ⟨ref, cell_of_forceThunk within ended⟩
  | _ =>
    cases (ends_pure.mp ended).1
    cases isThunk

/-- A count and the entry of a body go together. -/
theorem effects_call {update : Counters → Counters} {code : Code} {args : List Value}
    (scope : Scope) (together : ∀ m : Machine, Effect m { m with
      counters := update m.counters, journal := .enter code args :: m.journal }) :
    (count update >>= fun _ => enter run code scope args).Effects := by
  intro m outcome m' ended
  rw [count, ends_modify_bind, enter, note, ends_modify_bind] at ended
  exact (together m).trans (within _ _ _ _ ended)

theorem effects_applyForced (callee : Value) (args : List Value) :
    (applyForced run callee args).Effects := by
  cases callee with
  | closure id code scope missing bound =>
    rw [applyForced]
    split
    · exact effects_call within scope fun m => .exactCall m code _
    · split
      · exact effects_pure _
      · split
        · intro m outcome m' ended
          obtain ⟨-, rfl⟩ := (ends_iff_of_run rfl).mp ended
          exact .partialApplication m
        · rw [← bind_assoc]
          exact (effects_call within scope fun m => .overApplication m code _).bind
            fun result => within (.apply result _)
  | _ => exact effects_pure _

theorem effects_forceAll (values : List Value) : (forceAll run values).Effects :=
  effects_mapM (fun value => within (.force value)) values

theorem effects_execute (op : PrimOp) (args : List Value) : (execute run op args).Effects := by
  by_cases saturated : args.length = op.arity
  · rw [execute_of_length_eq saturated]
    refine (effects_forceAll within args).bind fun values => ?_
    split
    · exact effects_instantiate _
    · exact effects_throw _
  · rw [execute_of_length_ne saturated]
    exact effects_throw _

theorem effects_unpackAppend (text : String) (rest : Value) :
    (unpackAppend run text rest).Effects :=
  (effects_unpack within text.toList rest).tryCatch fun e => effects_newThunk (.fail e)

theorem effects_foldText (text : String) (f z : Value) : (foldText run text f z).Effects :=
  effects_foldlM (fun acc c => within (.apply f [.char c, acc])) z _

theorem effects_listValues (fuel : Nat) (list : Value) : (listValues run fuel list).Effects := by
  induction fuel generalizing list with
  | zero => exact effects_outOfFuel
  | succ fuel ih =>
    rw [listValues]
    refine (within (.force list)).bind fun cell => ?_
    split
    · exact effects_pure []
    · exact (within _).bind fun value => (ih _).bind fun values => effects_pure (value :: values)
    · exact effects_throw _

theorem effects_modifyMutVar (ref : Nat) (f : Value) : (modifyMutVar run ref f).Effects := by
  refine effects_get.bind fun m => ?_
  refine (within _).bind fun result => (within (.force result)).bind fun pair => ?_
  split
  · exact (effects_modify fun m => .writeMutVar m ref _).bind fun _ => effects_pure _
  · exact effects_throw _

theorem effects_perform (fuel : Nat) (op : Operation) (args : List Value) :
    (perform run fuel op args).Effects := by
  cases op with
  | force =>
    match args with
    | [_] => exact within _
    | [] | _ :: _ :: _ => exact effects_malformed
  | apply =>
    match args with
    | _ :: _ => exact within _
    | [] => exact effects_malformed
  | prim op => exact effects_execute within op args
  | data tag => exact effects_newData tag args
  | field index =>
    match args with
    | [_] =>
      refine (within _).bind fun value => ?_
      split
      · split
        · exact effects_pure _
        · exact effects_malformed
      · exact effects_malformed
    | [] | _ :: _ :: _ => exact effects_malformed
  | equal =>
    match args with
    | [_, _] => exact effects_pure _
    | [] | [_] | _ :: _ :: _ :: _ => exact effects_malformed
  | typeName =>
    match args with
    | [_] => exact effects_pure _
    | [] | _ :: _ :: _ => exact effects_malformed
  | tag =>
    match args with
    | [_] =>
      rw [perform_tag]
      split
      · exact effects_pure _
      · exact effects_pure _
    | [] | _ :: _ :: _ => exact effects_malformed
  | isThunk =>
    match args with
    | [_] => exact effects_pure _
    | [] | _ :: _ :: _ => exact effects_malformed
  | isEvaluated =>
    match args with
    | [] => exact effects_malformed
    | [value] =>
      cases value with
      | thunk ref => exact effects_get.bind fun m => effects_pure _
      | _ => exact effects_malformed
    | value :: _ :: _ => cases value <;> exact effects_malformed
  | display =>
    match args with
    | [_] => exact effects_get.bind fun m => effects_pure _
    | [] | _ :: _ :: _ => exact effects_malformed
  | debug =>
    match args with
    | [_] =>
      refine effects_get.bind fun m => ?_
      split
      · exact effects_pure _
      · exact effects_outOfFuel
    | [] | _ :: _ :: _ => exact effects_malformed
  | done =>
    match args with
    | [_] => exact effects_doneThunk _
    | [] | _ :: _ :: _ => exact effects_malformed
  | newMutVar =>
    match args with
    | [_] => exact effects_modifyGet fun m => .newMutVar m _
    | [] | _ :: _ :: _ => exact effects_malformed
  | read =>
    match args with
    | [] => exact effects_malformed
    | [value] =>
      cases value with
      | mutVar ref => exact effects_get.bind fun m => effects_pure _
      | _ => exact effects_malformed
    | value :: _ :: _ => cases value <;> exact effects_malformed
  | newMVar =>
    match args with
    | [] => exact effects_modifyGet fun m => .newMVar m none
    | [_] => exact effects_modifyGet fun m => .newMVar m _
    | _ :: _ :: _ => exact effects_malformed
  | take =>
    match args with
    | [] => exact effects_malformed
    | [value] =>
      cases value with
      | mVar ref => exact effects_take ref
      | _ => exact effects_malformed
    | value :: _ :: _ => cases value <;> exact effects_malformed
  | tryTake =>
    match args with
    | [] => exact effects_malformed
    | [value] =>
      cases value with
      | mVar ref =>
        refine (effects_tryTake ref).bind fun content => ?_
        split
        · exact effects_newData _ _
        · exact effects_newData _ _
      | _ => exact effects_malformed
    | value :: _ :: _ => cases value <;> exact effects_malformed
  | isEmpty =>
    match args with
    | [] => exact effects_malformed
    | [value] =>
      cases value with
      | mVar ref => exact effects_get.bind fun m => effects_pure _
      | _ => exact effects_malformed
    | value :: _ :: _ => cases value <;> exact effects_malformed
  | same =>
    match args with
    | [_, _] => exact effects_performSame _ _
    | [] | [_] | _ :: _ :: _ :: _ => exact effects_malformed
  | unpackAppend text =>
    match args with
    | [_] => exact effects_unpackAppend within _ _
    | [] | _ :: _ :: _ => exact effects_malformed
  | foldText text =>
    match args with
    | [_, _] => exact effects_foldText within _ _ _
    | [] | [_] | _ :: _ :: _ :: _ => exact effects_malformed
  | pack =>
    match args with
    | [_] =>
      exact (effects_listValues within fuel _).bind fun values =>
        (effects_packChars values).bind fun chars => effects_pure _
    | [] | _ :: _ :: _ => exact effects_malformed
  | fromList => exact effects_listOfValues args
  | toList =>
    match args with
    | [_] => exact (effects_listValues within fuel _).bind fun values => effects_newData _ _
    | [] | _ :: _ :: _ => exact effects_malformed

theorem effects_evalAll (scope : Scope) (exprs : List Expr) :
    (evalAll run scope exprs).Effects :=
  effects_mapM (fun e => within (.eval e scope)) exprs

theorem effects_evalExpr (fuel : Nat) (scope : Scope) (body : Expr) :
    (evalExpr run fuel scope body).Effects := by
  cases body with
  | lit value => exact effects_instantiate value
  | reg name =>
    refine effects_get.bind fun m => ?_
    split
    · exact effects_pure _
    · exact effects_throw _
  | arg index depth =>
    rw [evalExpr]
    split
    · exact effects_pure _
    · exact effects_malformed
  | thunk body => exact effects_newThunk _
  | lam arity name body => exact effects_define _ _
  | perform op operands =>
    exact (effects_evalAll within scope operands).bind fun args =>
      effects_perform within fuel op args
  | write target value =>
    refine (within _).bind fun place => ?_
    split
    · exact (within _).bind fun content =>
        (effects_modify fun m => .writeMutVar m _ content).bind fun _ => effects_pure _
    · exact effects_malformed
  | modify target function =>
    refine (within _).bind fun place => ?_
    split
    · exact (within _).bind fun f => effects_modifyMutVar within _ f
    · exact effects_malformed
  | put target value =>
    refine (within _).bind fun place => ?_
    split
    · exact (within _).bind fun content => (effects_put _ content).bind fun _ => effects_pure _
    · exact effects_malformed
  | tryPut target value =>
    refine (within _).bind fun place => ?_
    split
    · exact (within _).bind fun content => (effects_tryPut _ content).bind fun _ => effects_pure _
    · exact effects_malformed
  | switch scrutinee alternatives otherwise =>
    refine (within _).bind fun value => (within _).bind fun forced => ?_
    split
    · exact within _
    · exact within _
  | die message => exact effects_throw _
  | recover body handler => exact (within _).tryCatch fun _ => within _
  | tick label body => exact (effects_modify fun m => .tick m label).bind fun _ => within _
  | seq body => exact (effects_evalAll within scope body).bind fun values => effects_pure _
  | malformed => exact effects_malformed

theorem effects_step (finds : run.FindsThunks) (fuel : Nat) (task : Task) :
    (step run fuel task).Effects := by
  cases task with
  | force value => exact effects_forceValue within finds value
  | apply callee args =>
    exact (within (.force callee)).bind fun forced => effects_applyForced within forced args
  | eval body scope => exact effects_evalExpr within fuel scope body

end Tasks

end Eval

theorem run_effects_findsThunks (fuel : Nat) :
    (∀ task, (run fuel task).Effects) ∧ Eval.Runner.FindsThunks (run fuel) := by
  induction fuel with
  | zero =>
    exact ⟨fun _ => Eval.effects_outOfFuel,
      fun _ _ _ _ ended => absurd ended Eval.not_ends_outOfFuel⟩
  | succ fuel ih =>
    exact ⟨Eval.effects_step ih.1 ih.2 fuel, Eval.findsThunks_step ih.1 fuel⟩

theorem run_effects (fuel : Nat) (task : Task) : (run fuel task).Effects :=
  (run_effects_findsThunks fuel).1 task

theorem run_findsThunks (fuel : Nat) : Eval.Runner.FindsThunks (run fuel) :=
  (run_effects_findsThunks fuel).2

end CallByNeed
