import CallByNeed.Proofs.Effect

set_option autoImplicit false

/-!
The life of a thunk.

A cell waits until its computation starts, is marked while it runs, and then
keeps the outcome for good. Whatever a run does, and whether it ends in a value
or an error, it leaves no cell marked that was not marked before, starts no
computation twice, and never changes an outcome that a cell holds.
-/

namespace CallByNeed

namespace Cell

def isPending : Cell → Bool
  | .pending _ => true
  | _ => false

/-- What may have become of a cell after a run: one that waits may still wait or hold
an outcome, and any other is as it was. -/
def Settles : Cell → Cell → Prop
  | .pending computation, after =>
    after = .pending computation ∨ (∃ value, after = .done value) ∨ ∃ e, after = .failed e
  | before, after => after = before

theorem Settles.refl (cell : Cell) : cell.Settles cell := by
  cases cell with
  | pending computation => exact .inl rfl
  | _ => rfl

theorem Settles.ofOutcome (computation : Computation) (outcome : Except Error Value) :
    (pending computation).Settles (.ofOutcome outcome) := by
  cases outcome with
  | ok value => exact .inr (.inl ⟨value, rfl⟩)
  | error e => exact .inr (.inr ⟨e, rfl⟩)

theorem Settles.trans {first second third : Cell} (h : first.Settles second)
    (k : second.Settles third) : first.Settles third := by
  cases first with
  | pending computation =>
    rcases h with rfl | ⟨value, rfl⟩ | ⟨e, rfl⟩
    · exact k
    · exact .inr (.inl ⟨value, k⟩)
    · exact .inr (.inr ⟨e, k⟩)
  | _ =>
    cases h
    exact k

/-- No cell starts to wait. -/
theorem Settles.eq_pending {before : Cell} {computation : Computation}
    (h : before.Settles (.pending computation)) : before = .pending computation := by
  cases before with
  | pending other =>
    rcases h with same | ⟨value, ⟨⟩⟩ | ⟨e, ⟨⟩⟩
    exact same.symm
  | _ => exact h.symm

theorem ofOutcome_ne_forcing (outcome : Except Error Value) : ofOutcome outcome ≠ forcing := by
  cases outcome <;> simp [ofOutcome]

@[simp] theorem isPending_ofOutcome (outcome : Except Error Value) :
    (ofOutcome outcome).isPending = false := by
  cases outcome <;> rfl

theorem ofOutcome_ne_pending (outcome : Except Error Value) (computation : Computation) :
    ofOutcome outcome ≠ pending computation := by
  cases outcome <;> simp [ofOutcome]

end Cell

/-- Tells the start of one cell's computation from all else that happens. -/
def Event.isStart (ref : Nat) : Event → Bool
  | .start other => other == ref
  | _ => false

namespace Machine

/-- How often the computation of a cell has started. -/
def starts (m : Machine) (ref : Nat) : Nat := m.journal.countP (Event.isStart ref)

/-- The cell does not exist yet, or still waits. -/
def Unstarted (m : Machine) (ref : Nat) : Prop :=
  m.thunks.size ≤ ref ∨ ∃ computation, m.cell ref = .pending computation

theorem cell_of_thunks_eq {m m' : Machine} (same : m'.thunks = m.thunks) (ref : Nat) :
    m'.cell ref = m.cell ref := by
  rw [cell, cell, same]

theorem cell_of_push {m m' : Machine} {new : Cell} (pushed : m'.thunks = m.thunks.push new)
    {ref : Nat} (h : ref < m.thunks.size) : m'.cell ref = m.cell ref := by
  simp [cell, pushed, Array.getD_eq_getD_getElem?, Array.getElem?_push, Nat.ne_of_lt h]

theorem cell_size_of_push {m m' : Machine} {new : Cell}
    (pushed : m'.thunks = m.thunks.push new) : m'.cell m.thunks.size = new := by
  simp [cell, pushed, Array.getD_eq_getD_getElem?]

@[simp] theorem size_setCell (m : Machine) (ref : Nat) (cell : Cell) :
    (m.setCell ref cell).thunks.size = m.thunks.size := by
  simp [setCell]

@[simp] theorem starts_setCell (m : Machine) (ref other : Nat) (cell : Cell) :
    (m.setCell ref cell).starts other = m.starts other := rfl

/-! The machine when a computation has started -/

@[simp] theorem size_started (m : Machine) (ref : Nat) :
    (m.started ref).thunks.size = m.thunks.size := by
  simp [started]

@[simp] theorem cell_started_self {m : Machine} {ref : Nat} (h : ref < m.thunks.size) :
    (m.started ref).cell ref = .forcing :=
  cell_setCell_self m .forcing h

@[simp] theorem cell_started_of_ne {m : Machine} {ref other : Nat} (h : ref ≠ other) :
    (m.started ref).cell other = m.cell other :=
  cell_setCell_of_ne m .forcing h

@[simp] theorem starts_started_self (m : Machine) (ref : Nat) :
    (m.started ref).starts ref = m.starts ref + 1 := by
  simp [starts, started, Event.isStart]

@[simp] theorem starts_started_of_ne {m : Machine} {ref other : Nat} (h : ref ≠ other) :
    (m.started ref).starts other = m.starts other := by
  simp [starts, started, Event.isStart, h]

theorem not_unstarted_started {m : Machine} {ref : Nat} (h : ref < m.thunks.size) :
    ¬ (m.started ref).Unstarted ref := by
  rintro (beyond | ⟨other, waits⟩)
  · simp at beyond
    omega
  · simp [h] at waits

@[simp] theorem unstarted_started_of_ne {m : Machine} {ref other : Nat} (h : ref ≠ other) :
    (m.started ref).Unstarted other ↔ m.Unstarted other := by
  simp [Unstarted, h]

theorem not_unstarted_ofOutcome {m : Machine} {ref : Nat} (h : ref < m.thunks.size)
    (outcome : Except Error Value) : ¬ (m.setCell ref (.ofOutcome outcome)).Unstarted ref := by
  rintro (beyond | ⟨other, waits⟩)
  · simp at beyond
    omega
  · rw [cell_setCell_self _ _ h] at waits
    exact Cell.ofOutcome_ne_pending outcome other waits

@[simp]
theorem unstarted_setCell_of_ne {m : Machine} {ref other : Nat} (cell : Cell) (h : ref ≠ other) :
    (m.setCell ref cell).Unstarted other ↔ m.Unstarted other := by
  simp [Unstarted, h]

/-! Cells that wait -/

/-- How many cells wait. -/
def waiting (m : Machine) : Nat := m.thunks.countP Cell.isPending

theorem waiting_setCell (m : Machine) {ref : Nat} (present : ref < m.thunks.size) (cell : Cell) :
    (m.setCell ref cell).waiting + (m.cell ref).isPending.toNat =
      m.waiting + cell.isPending.toNat := by
  have same : m.cell ref = m.thunks[ref] := by
    simp [Machine.cell, Array.getD_eq_getD_getElem?, present]
  have counted : (m.cell ref).isPending.toNat ≤ m.thunks.countP Cell.isPending := by
    cases pending : (m.cell ref).isPending with
    | false => exact Nat.zero_le _
    | true => exact Array.countP_pos_iff.mpr ⟨_, Array.getElem_mem present, same ▸ pending⟩
  unfold waiting setCell
  rw [Array.setIfInBounds_def, dif_pos present, Array.countP_set, ← same]
  revert counted
  cases (m.cell ref).isPending <;> cases cell.isPending <;>
    simp only [Bool.toNat_true, Bool.toNat_false, Bool.false_eq_true, if_true, if_false] <;> omega

theorem waiting_setCell_le (m : Machine) (ref : Nat) {cell : Cell} (h : cell.isPending = false) :
    (m.setCell ref cell).waiting ≤ m.waiting := by
  by_cases present : ref < m.thunks.size
  · have changed := m.waiting_setCell present cell
    simp only [h, Bool.toNat_false] at changed
    omega
  · have same : m.setCell ref cell = m := by
      rw [setCell, Array.setIfInBounds_def, dif_neg present]
    exact Nat.le_of_eq (congrArg waiting same)

theorem waiting_started {m : Machine} {ref : Nat} {computation : Computation}
    (pending : m.cell ref = .pending computation) : (m.started ref).waiting + 1 = m.waiting := by
  have present : ref < m.thunks.size := lt_size_of_cell_ne_forcing (by simp [pending])
  have changed := m.waiting_setCell present .forcing
  rw [pending] at changed
  exact changed

/-- How a run changes the cells, and which computations it starts. -/
structure Evolves (m m' : Machine) : Prop where
  size_le : m.thunks.size ≤ m'.thunks.size
  settles : ∀ ref < m.thunks.size, (m.cell ref).Settles (m'.cell ref)
  unmarked : ∀ ref < m'.thunks.size, m'.cell ref = .forcing →
    ref < m.thunks.size ∧ m.cell ref = .forcing
  starts_le : ∀ ref, m'.starts ref ≤ m.starts ref + 1
  starts_eq_of_started : ∀ ref, ¬ m.Unstarted ref → m'.starts ref = m.starts ref
  starts_eq_of_unstarted : ∀ ref, m'.Unstarted ref → m'.starts ref = m.starts ref

namespace Evolves

variable {m m' m'' : Machine}

theorem unstarted (h : m.Evolves m') {ref : Nat} (waits : m'.Unstarted ref) :
    m.Unstarted ref := by
  by_cases beyond : m.thunks.size ≤ ref
  · exact .inl beyond
  · have present : ref < m.thunks.size := Nat.lt_of_not_le beyond
    rcases waits with absent | ⟨computation, pending⟩
    · exact absurd (Nat.lt_of_lt_of_le present h.size_le) (Nat.not_lt.mpr absent)
    · have settled := h.settles ref present
      rw [pending] at settled
      exact .inr ⟨computation, settled.eq_pending⟩

theorem of_same_cells (thunks : m'.thunks = m.thunks) (starts : m'.starts = m.starts) :
    m.Evolves m' where
  size_le := Nat.le_of_eq (by rw [thunks])
  settles ref _ := by
    rw [cell_of_thunks_eq thunks]
    exact .refl _
  unmarked ref present marked := by
    rw [thunks] at present
    rw [cell_of_thunks_eq thunks] at marked
    exact ⟨present, marked⟩
  starts_le ref := by rw [starts]; exact Nat.le_succ _
  starts_eq_of_started ref _ := by rw [starts]
  starts_eq_of_unstarted ref _ := by rw [starts]

theorem refl (m : Machine) : m.Evolves m := of_same_cells rfl rfl

theorem of_push {new : Cell} (thunks : m'.thunks = m.thunks.push new)
    (starts : m'.starts = m.starts) (new_ne : new ≠ .forcing) : m.Evolves m' where
  size_le := by simp [thunks]
  settles ref present := by
    rw [cell_of_push thunks present]
    exact .refl _
  unmarked ref present marked := by
    rcases Nat.lt_or_eq_of_le (Nat.le_of_lt_succ (by simpa [thunks] using present)) with old | rfl
    · rw [cell_of_push thunks old] at marked
      exact ⟨old, marked⟩
    · rw [cell_size_of_push thunks] at marked
      exact absurd marked new_ne
  starts_le ref := by rw [starts]; exact Nat.le_succ _
  starts_eq_of_started ref _ := by rw [starts]
  starts_eq_of_unstarted ref _ := by rw [starts]

theorem trans (h : m.Evolves m') (k : m'.Evolves m'') : m.Evolves m'' where
  size_le := Nat.le_trans h.size_le k.size_le
  settles ref present :=
    (h.settles ref present).trans (k.settles ref (Nat.lt_of_lt_of_le present h.size_le))
  unmarked ref present marked := by
    obtain ⟨present', marked'⟩ := k.unmarked ref present marked
    exact h.unmarked ref present' marked'
  starts_le ref := by
    -- A computation that starts in the first part is no longer waiting in the second.
    by_cases waits : m'.Unstarted ref
    · rw [← h.starts_eq_of_unstarted ref waits]
      exact k.starts_le ref
    · rw [k.starts_eq_of_started ref waits]
      exact h.starts_le ref
  starts_eq_of_started ref started := by
    have started' : ¬ m'.Unstarted ref := fun waits => started (h.unstarted waits)
    rw [k.starts_eq_of_started ref started', h.starts_eq_of_started ref started]
  starts_eq_of_unstarted ref waits := by
    rw [k.starts_eq_of_unstarted ref waits, h.starts_eq_of_unstarted ref (k.unstarted waits)]

/-- What runs between the start of a computation and the memo of its outcome leaves the
mark alone, so the cell goes from waiting to its outcome. -/
theorem evaluate {ref : Nat} {computation : Computation} (outcome : Except Error Value)
    (pending : m.cell ref = .pending computation) (inner : (m.started ref).Evolves m') :
    m.Evolves (m'.setCell ref (.ofOutcome outcome)) := by
  have present : ref < m.thunks.size := lt_size_of_cell_ne_forcing (by simp [pending])
  have present' : ref < m'.thunks.size :=
    Nat.lt_of_lt_of_le (by simpa using present) inner.size_le
  have started := not_unstarted_started present
  constructor
  case size_le => simpa using inner.size_le
  case settles =>
    intro other h
    by_cases same : ref = other
    · subst same
      rw [pending, cell_setCell_self _ _ present']
      exact .ofOutcome computation outcome
    · rw [cell_setCell_of_ne _ _ same, ← cell_started_of_ne same]
      exact inner.settles other (by simpa using h)
  case unmarked =>
    intro other h marked
    by_cases same : ref = other
    · subst same
      rw [cell_setCell_self _ _ present'] at marked
      exact absurd marked (Cell.ofOutcome_ne_forcing outcome)
    · rw [cell_setCell_of_ne _ _ same] at marked
      have before := inner.unmarked other (by simpa using h) marked
      simpa [same] using before
  case starts_le =>
    intro other
    by_cases same : ref = other
    · subst same
      exact Nat.le_of_eq (by
        rw [starts_setCell, inner.starts_eq_of_started ref started, starts_started_self])
    · rw [starts_setCell, ← starts_started_of_ne (m := m) same]
      exact inner.starts_le other
  case starts_eq_of_started =>
    intro other h
    have same : ref ≠ other := by
      rintro rfl
      exact h (.inr ⟨computation, pending⟩)
    rw [starts_setCell, ← starts_started_of_ne (m := m) same]
    exact inner.starts_eq_of_started other (mt (unstarted_started_of_ne same).mp h)
  case starts_eq_of_unstarted =>
    intro other h
    have same : ref ≠ other := by
      rintro rfl
      exact not_unstarted_ofOutcome present' outcome h
    rw [starts_setCell, ← starts_started_of_ne (m := m) same]
    exact inner.starts_eq_of_unstarted other ((unstarted_setCell_of_ne _ same).mp h)

end Evolves

end Machine

theorem Effect.evolves {m m' : Machine} (effect : Effect m m') : m.Evolves m' := by
  induction effect with
  | refl => exact .refl _
  | trans _ _ first second => exact first.trans second
  | newThunk => exact .of_push rfl rfl (by simp)
  | doneThunk => exact .of_push rfl rfl (by simp)
  | evaluate outcome pending _ _ inner => exact inner.evaluate outcome pending
  | _ => exact .of_same_cells rfl rfl

/-- The machine `m'` is reached from `m` by operations that have returned, one after the
other; between them values may be put in registers. -/
inductive Machine.Reaches (m : Machine) : Machine → Prop where
  | refl : m.Reaches m
  | operation {fuel : Nat} {task : Task} {m₁ m₂ : Machine} {outcome : Except Error Value} :
      m.Reaches m₁ → (run fuel task).Ends m₁ outcome m₂ → m.Reaches m₂
  | keep {m₁ : Machine} (name : String) (value : Value) :
      m.Reaches m₁ → m.Reaches (m₁.setRegister name value)

theorem Machine.Reaches.evolves {m m' : Machine} (reached : m.Reaches m') : m.Evolves m' := by
  induction reached with
  | refl => exact .refl _
  | operation _ ended before => exact before.trans (run_effects _ _ _ _ _ ended).evolves
  | keep name value _ before => exact before.trans (.of_same_cells rfl rfl)

/-- Started in `m`, a run is at some time in this machine: operations have ended, parts of
operations have been done, and the computations of some cells have started, but not ended. -/
inductive Machine.Passes (m : Machine) : Machine → Prop where
  | start : m.Passes m
  | operation {fuel : Nat} {task : Task} {m₁ m₂ : Machine} {outcome : Except Error Value} :
      m.Passes m₁ → (run fuel task).Ends m₁ outcome m₂ → m.Passes m₂
  | part {m₁ m₂ : Machine} : m.Passes m₁ → Effect m₁ m₂ → m.Passes m₂
  | inside {m₁ : Machine} {ref : Nat} {computation : Computation} :
      m.Passes m₁ → m₁.cell ref = .pending computation → m.Passes (m₁.started ref)
  | keep {m₁ : Machine} (name : String) (value : Value) :
      m.Passes m₁ → m.Passes (m₁.setRegister name value)

/-- What holds at the start, stays with every effect and when a computation starts, and does
not look at the registers, holds all the time. -/
theorem Machine.Passes.invariant {P : Machine → Prop} {m m' : Machine} (passes : m.Passes m')
    (start : P m) (effect : ∀ {m₁ m₂}, Effect m₁ m₂ → P m₁ → P m₂)
    (inside : ∀ {m₁ ref computation}, m₁.cell ref = .pending computation → P m₁ →
      P (m₁.started ref))
    (keep : ∀ {m₁} name value, P m₁ → P (m₁.setRegister name value)) : P m' := by
  induction passes with
  | start => exact start
  | operation _ ended before => exact effect (run_effects _ _ _ _ _ ended) before
  | part _ done before => exact effect done before
  | inside _ pending before => exact inside pending before
  | keep name value _ before => exact keep name value before

/-- Until its computation ends, a cell stays marked. -/
theorem Effect.marked {m m' : Machine} {ref : Nat} {computation : Computation}
    (pending : m.cell ref = .pending computation) (inner : Effect (m.started ref) m') :
    m'.cell ref = .forcing ∧ ref < m'.thunks.size := by
  have present : ref < m.thunks.size := Machine.lt_size_of_cell_ne_forcing (by simp [pending])
  have present' : ref < (m.started ref).thunks.size := by simpa using present
  have settled := inner.evolves.settles ref present'
  rw [Machine.cell_started_self present] at settled
  exact ⟨settled, Nat.lt_of_lt_of_le present' inner.size_le⟩

/-! Forcing what does not wait -/

theorem force_plain {value : Value} (plain : value.isThunk = false) (m : Machine) (depth : Nat) :
    (run (depth + 1) (.force value)).Ends m (.ok value) m := by
  cases value with
  | thunk => cases plain
  | _ => rfl

theorem force_done {m : Machine} {ref : Nat} {value : Value} (done : m.cell ref = .done value)
    (depth : Nat) : (run (depth + 1) (.force (.thunk ref))).Ends m (.ok value)
      { m with counters := { m.counters with memoHits := m.counters.memoHits + 1 } } := by
  show (Eval.forceThunk (run depth) ref).Ends _ _ _
  rw [Eval.forceThunk, Eval.ends_get_bind, done]
  exact rfl

theorem force_failed {m : Machine} {ref : Nat} {e : Error} (failed : m.cell ref = .failed e)
    (depth : Nat) : (run (depth + 1) (.force (.thunk ref))).Ends m (.error e) m := by
  show (Eval.forceThunk (run depth) ref).Ends _ _ _
  rw [Eval.forceThunk, Eval.ends_get_bind, failed]
  exact rfl

theorem force_forcing {m : Machine} {ref : Nat} (marked : m.cell ref = .forcing) (depth : Nat) :
    (run (depth + 1) (.force (.thunk ref))).Ends m (.error .blackHole)
      { m with counters := { m.counters with blackHoles := m.counters.blackHoles + 1 } } := by
  show (Eval.forceThunk (run depth) ref).Ends _ _ _
  rw [Eval.forceThunk, Eval.ends_get_bind, marked]
  exact rfl

/-- An outcome that a cell holds is there for good. -/
theorem Machine.Evolves.keeps_outcome {m m' : Machine} (h : m.Evolves m') {ref : Nat}
    (outcome : Except Error Value) (settled : m.cell ref = .ofOutcome outcome) :
    m'.cell ref = .ofOutcome outcome := by
  have present : ref < m.thunks.size :=
    lt_size_of_cell_ne_forcing (by rw [settled]; exact Cell.ofOutcome_ne_forcing outcome)
  have kept := h.settles ref present
  rw [settled] at kept
  cases outcome with
  | ok value => exact kept
  | error e => exact kept

/-- Every run, from any heap and to any outcome, leaves each cell as it was but for
pending cells that settle, and starts a computation only once. So a memo answers all later
forces, and between operations no cell is marked. -/
theorem thunks_settle_once {fuel : Nat} {task : Task} {m m' : Machine}
    {outcome : Except Error Value} (ended : (run fuel task).Ends m outcome m') :
    (∀ ref < m.thunks.size, (m.cell ref).Settles (m'.cell ref)) ∧
    (∀ ref, m'.starts ref ≤ m.starts ref + 1 ∧
      (¬ m.Unstarted ref → m'.starts ref = m.starts ref)) ∧
    (∀ m'', m'.Reaches m'' → ∀ ref depth,
      (∀ value, m'.cell ref = .done value →
        (run (depth + 1) (.force (.thunk ref))).Ends m'' (.ok value)
          { m'' with counters := { m''.counters with memoHits := m''.counters.memoHits + 1 } }) ∧
      ∀ e, m'.cell ref = .failed e →
        (run (depth + 1) (.force (.thunk ref))).Ends m'' (.error e) m'') ∧
    (Machine.Reaches {} m →
      (∀ ref, m'.starts ref ≤ 1) ∧ ∀ ref < m'.thunks.size, m'.cell ref ≠ .forcing) := by
  have evolved : m.Evolves m' := (run_effects _ _ _ _ _ ended).evolves
  refine ⟨evolved.settles, ?_, ?_, ?_⟩
  · intro ref
    exact ⟨evolved.starts_le ref, evolved.starts_eq_of_started ref⟩
  · intro m'' later ref depth
    constructor
    · intro value done
      exact force_done (later.evolves.keeps_outcome (.ok value) done) depth
    · intro e failed
      exact force_failed (later.evolves.keeps_outcome (.error e) failed) depth
  · intro reached
    have whole := (reached.operation ended).evolves
    constructor
    · intro ref
      simpa [Machine.starts] using whole.starts_le ref
    · intro ref present marked
      exact absurd (whole.unmarked ref present marked).1 (by simp)

/-- A thunk made in one operation and forced in the next. -/
theorem thunks_settle_once_forced : ∃ m m' : Machine,
    Machine.Reaches {} m ∧ m.cell 0 = .pending (.eval (.lit (.scalar .unit)) []) ∧
    (run 3 (.force (.thunk 0))).Ends m (.ok .unit) m' ∧
    (m.cell 0).Settles (m'.cell 0) ∧ m'.starts 0 ≤ 1 ∧ m'.cell 0 ≠ .forcing := by
  let m : Machine :=
    { thunks := #[.pending (.eval (.lit (.scalar .unit)) [])], counters := { thunksCreated := 1 } }
  have made : (run 1 (.eval (.thunk (.lit (.scalar .unit))) [])).Ends {} (.ok (.thunk 0)) m := rfl
  have reached : Machine.Reaches {} m := Machine.Reaches.refl.operation made
  have forced : (run 3 (.force (.thunk 0))).Ends m (.ok .unit)
      { thunks := #[.done .unit], journal := [.start 0],
        counters := { thunksCreated := 1, thunksForced := 1 } } := rfl
  obtain ⟨settles, -, -, between⟩ := thunks_settle_once forced
  exact ⟨m, _, reached, rfl, forced, settles 0 (by decide), (between reached).1 0,
    (between reached).2 0 (by decide)⟩

end CallByNeed
