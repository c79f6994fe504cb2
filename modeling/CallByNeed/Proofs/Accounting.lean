import CallByNeed.Proofs.Memo

set_option autoImplicit false

/-!
What the counters say.

Three counts can be read off the machine itself: the cells that still wait, the
closures that were defined, and the bodies that were entered. The counters give
the same numbers after every operation, and at every point inside one, however
the operations end. Each effect changes both sides alike; the evaluation of a
cell does so when it starts, and its outcome changes neither.
-/

namespace CallByNeed

def Event.isDefine : Event → Bool
  | .define _ => true
  | _ => false

def Event.isEnter : Event → Bool
  | .enter .. => true
  | _ => false

namespace Machine

/-- How many function definitions have been evaluated to a closure. -/
def definitions (m : Machine) : Nat := m.journal.countP Event.isDefine

/-- How often a body has been entered. -/
def entries (m : Machine) : Nat := m.journal.countP Event.isEnter

/-- The counters agree with the cells and the journal. -/
structure Accounted (m : Machine) : Prop where
  thunks : (m.counters.thunksCreated : Int) - m.counters.thunksForced = m.waiting
  closures : (m.counters.closures : Int) - m.counters.partialApplications = m.definitions
  calls : m.counters.exactCalls + m.counters.overApplications = m.entries

variable {m m' : Machine}

theorem accounted_of_reset (counters : m.counters = {}) (thunks : m.thunks = #[])
    (journal : m.journal = []) : m.Accounted := by
  constructor <;> simp [waiting, definitions, entries, counters, thunks, journal]

theorem Accounted.started {ref : Nat} {computation : Computation} (accounted : m.Accounted)
    (pending : m.cell ref = .pending computation) : (m.started ref).Accounted where
  thunks := by
    have before := accounted.thunks
    have fewer := waiting_started pending
    show (m.counters.thunksCreated : Int) - (m.counters.thunksForced + 1 : Nat) = _
    omega
  closures := accounted.closures
  calls := accounted.calls

/-- A cell that does not wait may get any outcome. -/
theorem Accounted.remember {ref : Nat} (accounted : m.Accounted)
    (marked : (m.cell ref).isPending = false) (present : ref < m.thunks.size)
    (outcome : Except Error Value) : (m.setCell ref (.ofOutcome outcome)).Accounted where
  thunks := by
    have same := m.waiting_setCell present (.ofOutcome outcome)
    rw [marked, Cell.isPending_ofOutcome] at same
    rw [Nat.add_right_cancel same]
    exact accounted.thunks
  closures := accounted.closures
  calls := accounted.calls

end Machine

theorem Effect.accounted {m m' : Machine} (effect : Effect m m') (accounted : m.Accounted) :
    m'.Accounted := by
  induction effect with
  | refl => exact accounted
  | trans _ _ first second => exact second (first accounted)
  | newThunk m computation =>
    refine ⟨?_, accounted.closures, accounted.calls⟩
    have before := accounted.thunks
    simp only [Machine.waiting, Array.countP_push, Cell.isPending, if_true] at before ⊢
    omega
  | doneThunk m value =>
    refine ⟨?_, accounted.closures, accounted.calls⟩
    simpa [Machine.waiting, Array.countP_push, Cell.isPending] using accounted.thunks
  | define m code =>
    refine ⟨accounted.thunks, ?_, accounted.calls⟩
    have before := accounted.closures
    simp only [Machine.definitions, List.countP_cons, Event.isDefine, if_true] at before ⊢
    omega
  | partialApplication m =>
    refine ⟨accounted.thunks, ?_, accounted.calls⟩
    have before := accounted.closures
    simp only [Machine.definitions] at before ⊢
    omega
  | exactCall m code args =>
    refine ⟨accounted.thunks, accounted.closures, ?_⟩
    have before := accounted.calls
    simp only [Machine.entries, List.countP_cons, Event.isEnter, if_true] at before ⊢
    omega
  | overApplication m code args =>
    refine ⟨accounted.thunks, accounted.closures, ?_⟩
    have before := accounted.calls
    simp only [Machine.entries, List.countP_cons, Event.isEnter, if_true] at before ⊢
    omega
  | @evaluate m m' ref computation outcome pending inner _ ih =>
    obtain ⟨marked, present⟩ := inner.marked pending
    exact (ih (accounted.started pending)).remember (by rw [marked]; rfl) present outcome
  | _ => exact ⟨accounted.thunks, accounted.closures, accounted.calls⟩

theorem Machine.Passes.accounted {m m' : Machine} (accounted : m.Accounted)
    (passes : m.Passes m') : m'.Accounted :=
  passes.invariant accounted (fun effect before => effect.accounted before)
    (fun pending before => before.started pending)
    fun _ _ before => ⟨before.thunks, before.closures, before.calls⟩

/-- From a machine without thunks, with nothing counted and nothing recorded, every operation
at any point of a run ends with counters that agree with the cells and the journal, whatever
its outcome. -/
theorem counters_account {start m : Machine} (counters : start.counters = {})
    (thunks : start.thunks = #[]) (journal : start.journal = []) (passes : start.Passes m) :
    m.Accounted ∧ ∀ fuel task outcome m', (run fuel task).Ends m outcome m' → m'.Accounted := by
  have accounted := Machine.accounted_of_reset counters thunks journal
  constructor
  · exact passes.accounted accounted
  · intro fuel task outcome m' ended
    exact (passes.operation ended).accounted accounted

/-- A function of two arguments gets one of them, and then a thunk fails that has made another
one. -/
theorem counters_account_failed :
    let applied : Expr := .perform .apply [.lam 2 none (.arg 1 0), .lit (.scalar .unit)]
    let failing : Expr := .thunk (.seq [.thunk (.lit (.scalar .unit)), .die "stop"])
    ∃ f m m', (run 4 (.eval applied [])).Ends {} (.ok f) m ∧ Machine.Passes {} m ∧
      (run 4 (.eval (.perform .force [failing]) [])).Ends m (.error (.user "stop")) m' ∧
      m'.Accounted ∧
      m'.counters =
        { thunksCreated := 2, thunksForced := 1, closures := 2, partialApplications := 1 } ∧
      m'.waiting = 1 ∧ m'.definitions = 1 ∧ m'.entries = 0 := by
  intro applied failing
  let code : Code := ⟨2, none, .arg 1 0⟩
  let m : Machine :=
    { nextClosure := 2
      counters := { closures := 2, partialApplications := 1 }
      journal := [.define code] }
  let m' : Machine :=
    { thunks := #[.failed (.user "stop"), .pending (.eval (.lit (.scalar .unit)) [])]
      nextClosure := 2
      counters := { thunksCreated := 2, thunksForced := 1, closures := 2, partialApplications := 1 }
      journal := [.start 0, .define code] }
  have first : (run 4 (.eval applied [])).Ends {} (.ok (.closure 1 code [] 1 [.unit])) m := rfl
  have second : (run 4 (.eval (.perform .force [failing]) [])).Ends m (.error (.user "stop")) m' :=
    rfl
  have passes : Machine.Passes {} m := .operation .start first
  have account := counters_account rfl rfl rfl passes
  exact ⟨_, m, m', first, passes, second, account.2 _ _ _ _ second, rfl, rfl, rfl, rfl⟩

end CallByNeed
