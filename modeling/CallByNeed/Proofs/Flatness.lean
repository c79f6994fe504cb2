import CallByNeed.Proofs.Memo

set_option autoImplicit false

/-!
Thunks in evaluated cells.

Forcing follows a thunk that a computation gives, but answers from an evaluated
cell with what the cell holds. So an evaluated cell holds a thunk only if some
cell was made with that thunk as its value. Where no cell was made so, forcing
gives no thunk, and forcing its result again does nothing.
-/

namespace CallByNeed

namespace Machine

/-- No evaluated cell holds a thunk. -/
def Flat (m : Machine) : Prop :=
  ∀ ref value, m.cell ref = .done value → value.isThunk = false

theorem Flat.of_effect {m m' : Machine} (flat : m'.Flat) (effect : Effect m m') : m.Flat := by
  intro ref value done
  exact flat ref value (effect.evolves.keeps_outcome (.ok value) done)

theorem Flat.force_isThunk {fuel : Nat} {value found : Value} {m m' : Machine}
    (flat : m'.Flat) (ended : (run fuel (.force value)).Ends m (.ok found) m') :
    found.isThunk = false := by
  rw [← Bool.not_eq_true]
  intro isThunk
  obtain ⟨ref, done⟩ := run_findsThunks fuel value m found m' ended isThunk
  exact Bool.false_ne_true ((flat ref found done).symm.trans isThunk)

/-- The cell was made with this value: it is evaluated, but no computation of it has started. -/
def MadeWith (m : Machine) (ref : Nat) (value : Value) : Prop :=
  m.cell ref = .done value ∧ m.starts ref = 0

variable {m m' : Machine}

theorem MadeWith.evolves {ref : Nat} {value : Value} (made : m.MadeWith ref value)
    (evolves : m.Evolves m') : m'.MadeWith ref value := by
  have started : ¬ m.Unstarted ref := by
    rintro (beyond | ⟨computation, pending⟩)
    · have present : ref < m.thunks.size := lt_size_of_cell_ne_forcing (by simp [made.1])
      exact absurd present (Nat.not_lt.mpr beyond)
    · simp [made.1] at pending
  exact ⟨evolves.keeps_outcome (.ok value) made.1,
    (evolves.starts_eq_of_started ref started).trans made.2⟩

/-- A thunk that an evaluated cell holds is one that a cell was made with. -/
structure Rooted (m : Machine) : Prop where
  starts_eq_zero : ∀ ref, m.Unstarted ref → m.starts ref = 0
  made : ∀ ref value, m.cell ref = .done value → value.isThunk = true →
    ∃ other, m.MadeWith other value

theorem rooted_empty : Rooted {} where
  starts_eq_zero _ _ := rfl
  made ref value done := by simp [cell] at done

theorem Rooted.of_evolves (rooted : m.Rooted) (evolves : m.Evolves m')
    (new : ∀ ref value, m'.cell ref = .done value → value.isThunk = true →
      m.cell ref = .done value ∨ ∃ other, m'.MadeWith other value) : m'.Rooted where
  starts_eq_zero ref unstarted := by
    rw [evolves.starts_eq_of_unstarted ref unstarted]
    exact rooted.starts_eq_zero ref (evolves.unstarted unstarted)
  made ref value done isThunk := by
    rcases new ref value done isThunk with before | made
    · obtain ⟨other, made⟩ := rooted.made ref value before isThunk
      exact ⟨other, made.evolves evolves⟩
    · exact made

theorem done_of_push {new : Cell} {ref : Nat} {value : Value}
    (pushed : m'.thunks = m.thunks.push new) (done : m'.cell ref = .done value) :
    m.cell ref = .done value ∨ ref = m.thunks.size ∧ new = .done value := by
  have present : ref < m'.thunks.size := lt_size_of_cell_ne_forcing (by simp [done])
  rcases Nat.lt_or_eq_of_le (Nat.le_of_lt_succ (by simpa [pushed] using present)) with old | rfl
  · rw [cell_of_push pushed old] at done
    exact .inl done
  · rw [cell_size_of_push pushed] at done
    exact .inr ⟨rfl, done⟩

theorem Rooted.started {ref : Nat} {computation : Computation} (rooted : m.Rooted)
    (pending : m.cell ref = .pending computation) : (m.started ref).Rooted := by
  have present : ref < m.thunks.size := lt_size_of_cell_ne_forcing (by simp [pending])
  constructor
  · intro other unstarted
    have apart : ref ≠ other := by
      rintro rfl
      exact not_unstarted_started present unstarted
    rw [starts_started_of_ne apart]
    exact rooted.starts_eq_zero other ((unstarted_started_of_ne apart).mp unstarted)
  · intro other value done isThunk
    have apart : ref ≠ other := by
      rintro rfl
      cases (cell_started_self present).symm.trans done
    rw [cell_started_of_ne apart] at done
    obtain ⟨root, holds, unstarted⟩ := rooted.made other value done isThunk
    have apart' : ref ≠ root := by
      rintro rfl
      cases pending.symm.trans holds
    exact ⟨root, (cell_started_of_ne apart').trans holds,
      (starts_started_of_ne apart').trans unstarted⟩

/-- A marked cell may get an outcome, if that is no thunk or one found in an evaluated cell. -/
theorem Rooted.remember {ref : Nat} (rooted : m.Rooted) (marked : m.cell ref = .forcing)
    (present : ref < m.thunks.size) (outcome : Except Error Value)
    (found : ∀ value, outcome = .ok value → value.isThunk = true →
      ∃ other, m.cell other = .done value) :
    (m.setCell ref (.ofOutcome outcome)).Rooted := by
  constructor
  · intro other unstarted
    have apart : ref ≠ other := by
      rintro rfl
      exact not_unstarted_ofOutcome present outcome unstarted
    rw [starts_setCell]
    exact rooted.starts_eq_zero other ((unstarted_setCell_of_ne _ apart).mp unstarted)
  · intro other value done isThunk
    have before : ∃ place, m.cell place = .done value := by
      by_cases same : ref = other
      · subst same
        rw [cell_setCell_self _ _ present] at done
        cases outcome with
        | ok result =>
          cases done
          exact found value rfl isThunk
        | error e => cases done
      · rw [cell_setCell_of_ne _ _ same] at done
        exact ⟨other, done⟩
    obtain ⟨place, holds⟩ := before
    obtain ⟨root, made, unstarted⟩ := rooted.made place value holds isThunk
    have apart : ref ≠ root := by
      rintro rfl
      cases marked.symm.trans made
    exact ⟨root, (cell_setCell_of_ne _ _ apart).trans made, unstarted⟩

end Machine

theorem Effect.rooted {m m' : Machine} (effect : Effect m m') (rooted : m.Rooted) :
    m'.Rooted := by
  induction effect with
  | trans _ _ first second => exact second (first rooted)
  | newThunk m computation =>
    refine rooted.of_evolves (.of_push rfl rfl (by simp)) fun ref value done _ => ?_
    rcases Machine.done_of_push rfl done with before | ⟨-, impossible⟩
    · exact .inl before
    · cases impossible
  | doneThunk m made =>
    have evolves : m.Evolves { m with thunks := m.thunks.push (.done made) } :=
      .of_push rfl rfl (by simp)
    refine rooted.of_evolves evolves fun ref value done _ => ?_
    rcases Machine.done_of_push rfl done with before | ⟨rfl, -⟩
    · exact .inl before
    · exact .inr ⟨_, done, rooted.starts_eq_zero _ (.inl (Nat.le_refl _))⟩
  | @evaluate m m' ref computation outcome pending inner found ih =>
    obtain ⟨marked, present⟩ := inner.marked pending
    exact (ih (rooted.started pending)).remember marked present outcome found
  | _ => exact rooted.of_evolves (.of_same_cells rfl rfl) fun _ _ done _ => .inl done

theorem Machine.Passes.rooted {m : Machine} (passes : Machine.Passes {} m) : m.Rooted :=
  passes.invariant Machine.rooted_empty (fun effect before => effect.rooted before)
    (fun pending before => before.started pending)
    fun _ _ before => ⟨before.starts_eq_zero, before.made⟩

theorem Machine.Rooted.flat_iff {m : Machine} (rooted : m.Rooted) :
    m.Flat ↔ ∀ ref value, m.MadeWith ref value → value.isThunk = false := by
  constructor
  · intro flat ref value made
    exact flat ref value made.1
  · intro plain ref value done
    rw [← Bool.not_eq_true]
    intro isThunk
    obtain ⟨root, made⟩ := rooted.made ref value done isThunk
    exact Bool.false_ne_true ((plain root value made).symm.trans isThunk)

/-- At every point of a run, evaluated cells hold no thunk exactly if none was made with one.
Then forcing gives no thunk, and forcing again gives the same and changes nothing. -/
theorem flat_iff_made_without_thunks {m : Machine} (passes : Machine.Passes {} m) :
    (m.Flat ↔ ∀ ref value, m.MadeWith ref value → value.isThunk = false) ∧
    (∀ value ref m', (Eval.doneThunk value).Ends m (.ok (.thunk ref)) m' → m'.MadeWith ref value) ∧
    ∀ fuel value found m', (run fuel (.force value)).Ends m (.ok found) m' →
      (∀ ref made, m'.MadeWith ref made → made.isThunk = false) →
      found.isThunk = false ∧ ∀ depth, (run (depth + 1) (.force found)).Ends m' (.ok found) m' := by
  refine ⟨passes.rooted.flat_iff, ?_, ?_⟩
  · intro value ref m' ended
    obtain ⟨same, rfl⟩ := Eval.ends_modifyGet.mp ended
    cases same
    exact ⟨Machine.cell_size_of_push rfl, passes.rooted.starts_eq_zero _ (.inl (Nat.le_refl _))⟩
  · intro fuel value found m' ended plain
    have flat : m'.Flat := (passes.operation ended).rooted.flat_iff.mpr plain
    have isThunk := flat.force_isThunk ended
    exact ⟨isThunk, force_plain isThunk m'⟩

/-- A computation gives a thunk, which is followed. -/
theorem flat_iff_made_without_thunks_nested :
    let nested : Expr := .thunk (.thunk (.lit (.scalar .unit)))
    ∃ m m', (run 1 (.eval nested [])).Ends {} (.ok (.thunk 0)) m ∧ Machine.Passes {} m ∧
      (run 3 (.force (.thunk 0))).Ends m (.ok .unit) m' ∧ m'.cell 0 = .done .unit ∧
      (∀ ref made, m'.MadeWith ref made → made.isThunk = false) ∧
      Value.unit.isThunk = false ∧ (run 1 (.force .unit)).Ends m' (.ok .unit) m' := by
  intro nested
  let m : Machine :=
    { thunks := #[.pending (.eval (.thunk (.lit (.scalar .unit))) [])]
      counters := { thunksCreated := 1 } }
  let m' : Machine :=
    { thunks := #[.done .unit, .done .unit]
      counters := { thunksCreated := 2, thunksForced := 2 }
      journal := [.start 1, .start 0] }
  have made : (run 1 (.eval nested [])).Ends {} (.ok (.thunk 0)) m := rfl
  have passes : Machine.Passes {} m := .operation .start made
  have forced : (run 3 (.force (.thunk 0))).Ends m (.ok .unit) m' := rfl
  have plain : ∀ ref made, m'.MadeWith ref made → made.isThunk = false := by
    rintro (_ | _ | ref) value ⟨done, -⟩
    · cases done
      rfl
    · cases done
      rfl
    · cases done
  obtain ⟨isThunk, again⟩ := (flat_iff_made_without_thunks passes).2.2 3 _ _ _ forced plain
  exact ⟨m, m', made, passes, forced, rfl, plain, isThunk, again 0⟩

/-- A cell that is made with a thunk holds it, and forcing gives that thunk. -/
theorem done_of_thunk_not_flat :
    let twice : Expr := .perform .done [.perform .done [.lit (.scalar .unit)]]
    ∃ m m' m'', (run 3 (.eval twice [])).Ends {} (.ok (.thunk 1)) m ∧ Machine.Reaches {} m ∧
      m.cell 1 = .done (.thunk 0) ∧ ¬ m.Flat ∧
      (run 1 (.force (.thunk 1))).Ends m (.ok (.thunk 0)) m' ∧
      (run 1 (.force (.thunk 0))).Ends m' (.ok .unit) m'' := by
  intro twice
  let m : Machine := { thunks := #[.done .unit, .done (.thunk 0)] }
  have made : (run 3 (.eval twice [])).Ends {} (.ok (.thunk 1)) m := rfl
  have notFlat : ¬ m.Flat := fun flat => Bool.false_ne_true (flat 1 (.thunk 0) rfl).symm
  exact ⟨m, _, _, made, .operation .refl made, rfl, notFlat, force_done rfl 0, force_done rfl 0⟩

end CallByNeed
