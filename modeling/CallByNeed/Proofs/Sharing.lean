import CallByNeed.Proofs.Graph
import CallByNeed.Proofs.Memo
import CallByNeed.Proofs.Renaming

set_option autoImplicit false

/-!
Sharing does not change what a thunk evaluates to.

The machine evaluates a node of a graph once and remembers the outcome. Whatever
was forced before, the outcome is the one that evaluation without memory comes
to, and where that does not end the machine finds a black hole. The invariant
ties each outcome in a cell to the evaluation without memory, and each mark to a
thunk that is being forced. A marked thunk needs whatever is forced meanwhile,
so if it is met again it needs itself.
-/

namespace CallByNeed

open Correspondence

theorem Cell.ofOutcome_injective {first second : Except Error Value}
    (h : Cell.ofOutcome first = .ofOutcome second) : first = second := by
  cases first <;> cases second <;> simp_all [Cell.ofOutcome]

namespace Machine

/-- What the program stored outside of the cells is as in `start`. -/
structure Continues (start m : Machine) : Prop where
  mutVars : m.mutVars = start.mutVars
  mVars : m.mVars = start.mVars
  registers : m.registers = start.registers
  nextData : start.nextData ≤ m.nextData
  nextClosure : start.nextClosure ≤ m.nextClosure

/-- The cells are as in `start` too: at most identities were given out. -/
structure Quiet (start m : Machine) : Prop extends start.Continues m where
  thunks : m.thunks = start.thunks

theorem Continues.trans {m₁ m₂ m₃ : Machine} (h : m₁.Continues m₂) (k : m₂.Continues m₃) :
    m₁.Continues m₃ where
  mutVars := k.mutVars.trans h.mutVars
  mVars := k.mVars.trans h.mVars
  registers := k.registers.trans h.registers
  nextData := Nat.le_trans h.nextData k.nextData
  nextClosure := Nat.le_trans h.nextClosure k.nextClosure

theorem Quiet.refl (m : Machine) : m.Quiet m :=
  ⟨⟨rfl, rfl, rfl, Nat.le_refl _, Nat.le_refl _⟩, rfl⟩

theorem Quiet.trans {m₁ m₂ m₃ : Machine} (h : m₁.Quiet m₂) (k : m₂.Quiet m₃) : m₁.Quiet m₃ :=
  ⟨h.toContinues.trans k.toContinues, k.thunks.trans h.thunks⟩

theorem Quiet.count (m : Machine) (counters : Counters) :
    m.Quiet { m with counters := counters } :=
  ⟨⟨rfl, rfl, rfl, Nat.le_refl _, Nat.le_refl _⟩, rfl⟩

/-- Values are alike if identities are the same or have been given out since. -/
def since (start : Machine) : Correspondence where
  data i j := i = j ∨ start.nextData ≤ j
  closure i j := i = j ∨ start.nextClosure ≤ j

theorem reflexive_since (start : Machine) : start.since.Reflexive where
  data _ := .inl rfl
  closure _ := .inl rfl

end Machine

mutual

theorem Eval.instantiate_ends (start : Machine) (literal : Literal) {m : Machine}
    (continues : start.Continues m) : ∃ value m', (Eval.instantiate literal).Ends m (.ok value) m' ∧
      start.since.Values literal.value value ∧ m.Quiet m' := by
  cases literal with
  | scalar s =>
    rw [Eval.instantiate]
    exact ⟨_, m, rfl, .scalar s, .refl m⟩
  | data tag fields =>
    rw [Eval.instantiate]
    obtain ⟨values, m', ended, lists, quiet⟩ := Eval.instantiateAll_ends start fields continues
    refine ⟨_, _, ended.bind rfl, ?_, quiet.trans ?_⟩
    · exact .data (.inr (continues.trans quiet.toContinues).nextData) lists
    · exact ⟨⟨rfl, rfl, rfl, Nat.le_succ _, Nat.le_refl _⟩, rfl⟩

theorem Eval.instantiateAll_ends (start : Machine) (literals : List Literal) {m : Machine}
    (continues : start.Continues m) :
    ∃ values m', (Eval.instantiateAll literals).Ends m (.ok values) m' ∧
      start.since.Lists (Literal.values literals) values ∧ m.Quiet m' := by
  cases literals with
  | nil =>
    rw [Eval.instantiateAll]
    exact ⟨_, m, rfl, .nil, .refl m⟩
  | cons field fields =>
    rw [Eval.instantiateAll]
    obtain ⟨value, m₁, first, values, quiet⟩ := Eval.instantiate_ends start field continues
    obtain ⟨rest, m₂, others, lists, quiet'⟩ :=
      Eval.instantiateAll_ends start fields (continues.trans quiet.toContinues)
    exact ⟨_, m₂, first.bind (others.bind rfl), .cons values lists, quiet.trans quiet'⟩

end

/-! Graphs in the machine -/

/-- In every machine that continues `start`, the computation does what the node says. It
gives out identities but does nothing else of its own. -/
def Node.Describes (start : Machine) : Node → Computation → Prop
  | .returns value, computation => ∃ depth, ∀ m, start.Continues m →
      ∃ found m', start.since.Values value found ∧ m.Quiet m' ∧
        ∀ fuel, depth ≤ fuel → (Eval.compute (run fuel) computation).Ends m (.ok found) m'
  | .calls op args, computation => ∃ depth, ∀ m, start.Continues m →
      ∃ found m', start.since.Lists args found ∧ m.Quiet m' ∧
        ∀ fuel outcome m'', (Eval.execute (run fuel) op found).Ends m' outcome m'' →
          (Eval.compute (run (fuel + depth)) computation).Ends m outcome m''

namespace Graph

/-- A plain value or a thunk of the graph. -/
def Holds (g : Graph) (value : Value) : Prop :=
  ∀ ref, value = .thunk ref → ∃ node, g ref = some node

/-- Every node of the graph waits in its cell, and leads to nothing outside of the graph. -/
structure Loaded (g : Graph) (start : Machine) : Prop where
  holds : ∀ {ref node}, g ref = some node → ∀ value ∈ node.values, g.Holds value
  pending : ∀ {ref node}, g ref = some node →
    ∃ computation, start.cell ref = .pending computation ∧ node.Describes start computation

/-- The outcome is what evaluation without memory comes to. -/
def Agrees (g : Graph) (start : Machine) (value : Value) (outcome : Except Error Value) : Prop :=
  ∃ expected, Attempt.Means (fun fuel => g.evaluate fuel value) expected ∧
    Outcomes start.since.Values expected outcome

/-- The cells of the graph while the thunks on the stack are being forced. -/
structure Invariant (g : Graph) (start : Machine) (stack : List Nat) (m : Machine) : Prop where
  continues : start.Continues m
  pending : ∀ {ref node computation}, g ref = some node → m.cell ref = .pending computation →
    node.Describes start computation
  forcing : ∀ {ref node}, g ref = some node → m.cell ref = .forcing → ref ∈ stack
  settled : ∀ {ref node} outcome, g ref = some node → m.cell ref = .ofOutcome outcome →
    g.Agrees start (.thunk ref) outcome

variable {g : Graph} {start m m' : Machine} {stack : List Nat} {ref : Nat} {node : Node}

theorem Loaded.invariant (loaded : g.Loaded start) : g.Invariant start [] start where
  continues := (Machine.Quiet.refl start).toContinues
  pending at_ref waits := by
    obtain ⟨computation, pending, describes⟩ := loaded.pending at_ref
    cases pending.symm.trans waits
    exact describes
  forcing at_ref marked := by
    obtain ⟨computation, pending, -⟩ := loaded.pending at_ref
    cases pending.symm.trans marked
  settled outcome at_ref settled := by
    obtain ⟨computation, pending, -⟩ := loaded.pending at_ref
    exact absurd (settled.symm.trans pending) (Cell.ofOutcome_ne_pending outcome computation)

namespace Invariant

theorem quiet (h : g.Invariant start stack m) (quiet : m.Quiet m') :
    g.Invariant start stack m' := by
  have same (ref : Nat) := Machine.cell_of_thunks_eq quiet.thunks ref
  refine ⟨h.continues.trans quiet.toContinues, ?_, ?_, ?_⟩
  · intro ref node computation at_ref waits
    exact h.pending at_ref (same ref ▸ waits)
  · intro ref node at_ref marked
    exact h.forcing at_ref (same ref ▸ marked)
  · intro ref node outcome at_ref settled
    exact h.settled outcome at_ref (same ref ▸ settled)

theorem started (h : g.Invariant start stack m) {computation : Computation}
    (waits : m.cell ref = .pending computation) :
    g.Invariant start (ref :: stack) (m.started ref) := by
  have present : ref < m.thunks.size := Machine.lt_size_of_cell_ne_forcing (by simp [waits])
  have marked := Machine.cell_started_self present
  refine ⟨h.continues.trans ⟨rfl, rfl, rfl, Nat.le_refl _, Nat.le_refl _⟩, ?_, ?_, ?_⟩
  · intro other node computation at_other waits
    by_cases same : ref = other
    · subst same
      cases marked.symm.trans waits
    · exact h.pending at_other (Machine.cell_started_of_ne same ▸ waits)
  · intro other node at_other forcing
    by_cases same : ref = other
    · exact same ▸ List.mem_cons_self
    · exact List.mem_cons_of_mem _ (h.forcing at_other (Machine.cell_started_of_ne same ▸ forcing))
  · intro other node outcome at_other settled
    by_cases same : ref = other
    · subst same
      exact absurd (settled.symm.trans marked) (Cell.ofOutcome_ne_forcing outcome)
    · exact h.settled outcome at_other (Machine.cell_started_of_ne same ▸ settled)

/-- The thunk leaves the stack with its outcome. -/
theorem remembered (h : g.Invariant start (ref :: stack) m) (present : ref < m.thunks.size)
    {outcome : Except Error Value} (agrees : g.Agrees start (.thunk ref) outcome) :
    g.Invariant start stack (m.setCell ref (.ofOutcome outcome)) := by
  have holds := Machine.cell_setCell_self m (.ofOutcome outcome) present
  have others {other : Nat} (differ : ref ≠ other) :=
    Machine.cell_setCell_of_ne m (.ofOutcome outcome) differ
  refine ⟨h.continues.trans ⟨rfl, rfl, rfl, Nat.le_refl _, Nat.le_refl _⟩, ?_, ?_, ?_⟩
  · intro other node computation at_other waits
    by_cases same : ref = other
    · subst same
      exact absurd (holds.symm.trans waits) (Cell.ofOutcome_ne_pending outcome computation)
    · exact h.pending at_other (others same ▸ waits)
  · intro other node at_other forcing
    by_cases same : ref = other
    · subst same
      exact absurd (holds.symm.trans forcing) (Cell.ofOutcome_ne_forcing outcome)
    · rcases List.mem_cons.mp (h.forcing at_other (others same ▸ forcing)) with equal | member
      · exact absurd equal.symm same
      · exact member
  · intro other node outcome' at_other settled
    by_cases same : ref = other
    · subst same
      cases Cell.ofOutcome_injective (holds.symm.trans settled)
      exact agrees
    · exact h.settled outcome' at_other (others same ▸ settled)

end Invariant

/-- The machine after a part of the evaluation that began in `m`. -/
structure After (g : Graph) (start : Machine) (stack : List Nat) (m m' : Machine) : Prop where
  invariant : g.Invariant start stack m'
  waiting : m'.waiting ≤ m.waiting
  size : m'.thunks.size = m.thunks.size

/-- With enough fuel the computation ends, and in the way that the attempts mean. -/
def Comes (g : Graph) (start : Machine) (stack : List Nat) {α β : Type} (R : α → β → Prop)
    (attempts : Nat → Attempt α) (x : Nat → Eval β) (m : Machine) : Prop :=
  ∃ enough expected outcome m', (∀ fuel, enough ≤ fuel → (x fuel).Ends m outcome m') ∧
    Attempt.Means attempts expected ∧ Outcomes R expected outcome ∧ g.After start stack m m'

section Parts

variable {α β γ δ : Type} {R : α → β → Prop} {S : γ → δ → Prop}

theorem After.quiet (h : g.Invariant start stack m) (quiet : m.Quiet m') :
    g.After start stack m m' :=
  ⟨h.quiet quiet, by simp [Machine.waiting, quiet.thunks], by rw [quiet.thunks]⟩

theorem After.trans {m'' : Machine} (h : g.After start stack m m')
    (k : g.After start stack m' m'') : g.After start stack m m'' :=
  ⟨k.invariant, Nat.le_trans k.waiting h.waiting, k.size.trans h.size⟩

theorem comes_pure {a : α} {b : β} (h : g.Invariant start stack m) (related : R a b) :
    g.Comes start stack R (fun _ => pure a) (fun _ => pure b) m :=
  ⟨0, .ok a, .ok b, m, fun _ _ => rfl, .inl ⟨0, rfl⟩, .ok related, .quiet h (.refl m)⟩

theorem comes_throw (h : g.Invariant start stack m) (e : Error) :
    g.Comes start stack R (fun _ => throw e) (fun _ => throw e) m :=
  ⟨0, .error e, .error e, m, fun _ _ => rfl, .inl ⟨0, rfl⟩, .error e, .quiet h (.refl m)⟩

theorem Comes.bind {attempts : Nat → Attempt α} {rest : Nat → α → Attempt γ} {x : Nat → Eval β}
    {y : Nat → β → Eval δ} (rising : Attempt.Rising attempts)
    (rising' : ∀ a, Attempt.Rising fun fuel => rest fuel a)
    (first : g.Comes start stack R attempts x m)
    (second : ∀ a b k m', R a b → (attempts k).run = some (.ok a) → g.After start stack m m' →
      g.Comes start stack S (fun fuel => rest fuel a) (fun fuel => y fuel b) m') :
    g.Comes start stack S (fun fuel => attempts fuel >>= rest fuel)
      (fun fuel => x fuel >>= y fuel) m := by
  obtain ⟨enough, expected, outcome, m₁, ends, means, outcomes, after⟩ := first
  cases outcomes with
  | error e =>
    exact ⟨enough, .error e, .error e, m₁, fun fuel le => (ends fuel le).bind_error,
      means.bind_error, .error e, after⟩
  | @ok a b related =>
    obtain ⟨k, done⟩ : ∃ k, (attempts k).run = some (.ok a) := by
      rcases means with found | ⟨-, ⟨⟩⟩
      exact found
    obtain ⟨enough', expected, outcome, m₂, ends', means', outcomes, after'⟩ :=
      second a b k m₁ related done after
    refine ⟨max enough enough', expected, outcome, m₂, fun fuel le => ?_,
      .bind rising (rising' a) done means', outcomes, after.trans after'⟩
    exact (ends fuel (Nat.le_trans (Nat.le_max_left _ _) le)).bind
      (ends' fuel (Nat.le_trans (Nat.le_max_right _ _) le))

end Parts

theorem ends_force_of_not_thunk {value : Value} (plain : value.isThunk = false) {fuel : Nat}
    (positive : 1 ≤ fuel) : (run fuel (.force value)).Ends m (.ok value) m := by
  obtain ⟨fuel, rfl⟩ : ∃ less, fuel = less + 1 := ⟨fuel - 1, by omega⟩
  exact force_plain plain m fuel

/-- Forcing agrees with evaluation as long as no more than `bound` cells wait. -/
def ForcesAgree (g : Graph) (start : Machine) (bound : Nat) : Prop :=
  ∀ {stack m value found}, g.Invariant start stack m → m.waiting ≤ bound →
    start.since.Values value found → g.Holds value →
    (g.Needs stack fun fuel => g.evaluate fuel value) →
    g.Comes start stack start.since.Values (fun fuel => g.evaluate fuel value)
      (fun fuel => run fuel (.force found)) m

section Nodes

variable {bound : Nat} (agree : g.ForcesAgree start bound)
include agree

theorem comes_forceAll {values found : List Value} (lists : start.since.Lists values found)
    (h : g.Invariant start stack m) (few : m.waiting ≤ bound) (holds : ∀ v ∈ values, g.Holds v)
    (needs : g.Needs stack fun fuel => values.mapM (g.evaluate fuel)) :
    g.Comes start stack start.since.Lists (fun fuel => values.mapM (g.evaluate fuel))
      (fun fuel => Eval.forceAll (run fuel) found) m := by
  induction lists generalizing m with
  | nil => exact comes_pure h .nil
  | @cons value _ values _ head _ ih =>
    simp only [Eval.forceAll, List.mapM_cons] at needs ih ⊢
    refine Comes.bind (g.rising_evaluate value)
      (fun v _ _ le => (rising_mapM_evaluate g values le).bind fun _ _ found => found)
      (agree h few head (holds value (by simp)) needs.first) fun v w k m₁ alike done after => ?_
    have rest := needs.second (g.rising_evaluate value) done
    refine Comes.bind (g.rising_mapM_evaluate values) (fun _ _ _ _ _ found => found)
      (ih after.invariant (Nat.le_trans after.waiting few)
        (fun v member => holds v (by simp [member])) rest.first) fun vs ws _ m₂ lists _ after' => ?_
    exact comes_pure after'.invariant (.cons alike lists)

theorem comes_execute {op : PrimOp} {args found : List Value} (lists : start.since.Lists args found)
    (h : g.Invariant start stack m) (few : m.waiting ≤ bound) (holds : ∀ v ∈ args, g.Holds v)
    (needs : g.Needs stack fun fuel => evaluateNode (g.evaluate fuel) (.calls op args)) :
    g.Comes start stack (fun v w => start.since.Values v w ∧ v.isThunk = false)
      (fun fuel => evaluateNode (g.evaluate fuel) (.calls op args))
      (fun fuel => Eval.execute (run fuel) op found) m := by
  have sameLength : args.length = found.length := lists.length_eq
  by_cases saturated : args.length = op.arity
  · simp only [evaluateNode, if_pos saturated] at needs ⊢
    simp only [Eval.execute_of_length_eq (sameLength ▸ saturated)]
    refine Comes.bind (g.rising_mapM_evaluate args) (fun _ _ _ _ _ found => found)
      (comes_forceAll agree lists h few holds needs.first) fun vs ws _ m₁ forced _ after => ?_
    rw [Lists.map_operand_eq forced]
    cases op.compute (ws.map Value.operand) with
    | ok result =>
      obtain ⟨value, m₂, ends, alike, quiet⟩ :=
        Eval.instantiate_ends start result after.invariant.continues
      exact ⟨0, .ok result.value, .ok value, m₂, fun _ _ => ends, .inl ⟨0, rfl⟩,
        .ok ⟨alike, result.isThunk_value⟩, .quiet after.invariant quiet⟩
    | error e => exact comes_throw after.invariant e
  · simp only [evaluateNode, if_neg saturated]
    simp only [Eval.execute_of_length_ne (sameLength ▸ saturated), sameLength]
    exact comes_throw h _

theorem comes_node {computation : Computation} (describes : node.Describes start computation)
    (h : g.Invariant start stack m) (few : m.waiting ≤ bound)
    (holds : ∀ v ∈ node.values, g.Holds v)
    (needs : g.Needs stack fun fuel => evaluateNode (g.evaluate fuel) node) :
    g.Comes start stack start.since.Values (fun fuel => evaluateNode (g.evaluate fuel) node)
      (fun fuel => Eval.compute (run fuel) computation >>= fun value => run fuel (.force value))
      m := by
  cases node with
  | returns value =>
    obtain ⟨depth, describes⟩ := describes
    obtain ⟨found, m₁, alike, quiet, computed⟩ := describes m h.continues
    have after : g.After start stack m m₁ := .quiet h quiet
    obtain ⟨enough, expected, outcome, m₂, ends, means, outcomes, after'⟩ :=
      agree after.invariant (Nat.le_trans after.waiting few) alike
        (holds value (by simp [Node.values])) needs
    refine ⟨max depth enough, expected, outcome, m₂, fun fuel le => ?_, means, outcomes,
      after.trans after'⟩
    exact (computed fuel (Nat.le_trans (Nat.le_max_left _ _) le)).bind
      (ends fuel (Nat.le_trans (Nat.le_max_right _ _) le))
  | calls op args =>
    obtain ⟨depth, describes⟩ := describes
    obtain ⟨found, m₁, lists, quiet, computed⟩ := describes m h.continues
    have after : g.After start stack m m₁ := .quiet h quiet
    obtain ⟨enough, expected, outcome, m₂, ends, means, outcomes, after'⟩ :=
      comes_execute agree lists after.invariant (Nat.le_trans after.waiting few) holds needs
    have computes (fuel : Nat) (le : enough + depth ≤ fuel) :
        (Eval.compute (run fuel) computation).Ends m outcome m₂ := by
      have ended := computed (fuel - depth) outcome m₂ (ends _ (by omega))
      rwa [Nat.sub_add_cancel (by omega)] at ended
    cases outcomes with
    | error e =>
      exact ⟨enough + depth, .error e, .error e, m₂, fun fuel le => (computes fuel le).bind_error,
        means, .error e, after.trans after'⟩
    | @ok v w related =>
      have plain : w.isThunk = false := related.1.isThunk_eq ▸ related.2
      refine ⟨enough + depth + 1, .ok v, .ok w, m₂, fun fuel le => ?_, means, .ok related.1,
        after.trans after'⟩
      exact (computes fuel (by omega)).bind (ends_force_of_not_thunk plain (by omega))

end Nodes

theorem comes_pending (loaded : g.Loaded start)
    (agree : g.ForcesAgree start (m.started ref).waiting)
    (at_ref : g ref = some node) {computation : Computation}
    (waits : m.cell ref = .pending computation) (h : g.Invariant start stack m)
    (needs : g.Needs stack fun fuel => g.evaluate fuel (.thunk ref)) :
    g.Comes start stack start.since.Values (fun fuel => g.evaluate fuel (.thunk ref))
      (fun fuel => run fuel (.force (.thunk ref))) m := by
  have present : ref < m.thunks.size := Machine.lt_size_of_cell_ne_forcing (by simp [waits])
  have fewer : (m.started ref).waiting + 1 = m.waiting := Machine.waiting_started waits
  obtain ⟨enough, expected, outcome, m', ends, means, outcomes, after⟩ :=
    comes_node agree (h.pending at_ref waits) (h.started waits) (Nat.le_refl _)
      (loaded.holds at_ref) (needs.inside at_ref)
  have sameSize : m'.thunks.size = m.thunks.size := after.size.trans (Machine.size_started m ref)
  have agrees : g.Agrees start (.thunk ref) outcome :=
    ⟨expected, means_thunk at_ref means, outcomes⟩
  refine ⟨enough + 1, expected, outcome, m'.setCell ref (.ofOutcome outcome), fun fuel le => ?_,
    means_thunk at_ref means, outcomes,
    after.invariant.remembered (sameSize ▸ present) agrees, ?_, ?_⟩
  · obtain ⟨fuel, rfl⟩ : ∃ less, fuel = less + 1 := ⟨fuel - 1, by omega⟩
    show (Eval.forceThunk (run fuel) ref).Ends m outcome _
    rw [Eval.forceThunk, Eval.ends_get_bind, waits, Eval.ends_startCell_bind, Eval.ends_remember]
    exact ⟨m', ends fuel (by omega), rfl⟩
  · have kept := Machine.waiting_setCell_le m' ref (Cell.isPending_ofOutcome outcome)
    have := after.waiting
    omega
  · rw [Machine.size_setCell, sameSize]

theorem comes_at_once {outcome : Except Error Value} (h : g.Invariant start stack m)
    (ends : ∀ depth, (run (depth + 1) (.force (.thunk ref))).Ends m outcome m') (quiet : m.Quiet m')
    (agrees : g.Agrees start (.thunk ref) outcome) :
    g.Comes start stack start.since.Values (fun fuel => g.evaluate fuel (.thunk ref))
      (fun fuel => run fuel (.force (.thunk ref))) m := by
  obtain ⟨expected, means, outcomes⟩ := agrees
  refine ⟨1, expected, outcome, m', fun fuel le => ?_, means, outcomes, .quiet h quiet⟩
  obtain ⟨depth, rfl⟩ : ∃ less, fuel = less + 1 := ⟨fuel - 1, by omega⟩
  exact ends depth

/-- The induction is on the number of cells that wait: the computation of a cell starts
with one cell less. -/
theorem forcesAgree (loaded : g.Loaded start) (bound : Nat) : g.ForcesAgree start bound := by
  induction bound using Nat.strongRecOn with
  | ind bound ih =>
    intro stack m value found h few alike holds needs
    by_cases plain : value.isThunk = false
    · have plain' : found.isThunk = false := alike.isThunk_eq ▸ plain
      exact ⟨1, .ok value, .ok found, m, fun fuel le => ends_force_of_not_thunk plain' le,
        .inl ⟨1, congrArg ExceptT.run (evaluate_of_not_thunk plain 0)⟩, .ok alike,
        .quiet h (.refl m)⟩
    · cases alike with
      | @thunk ref _ places =>
        cases places
        obtain ⟨node, at_ref⟩ := holds ref rfl
        cases holding : m.cell ref with
        | pending computation =>
          have fewer : (m.started ref).waiting < bound := by
            have started := Machine.waiting_started holding
            omega
          exact comes_pending loaded (ih _ fewer) at_ref holding h needs
        | forcing =>
          have means := needs.means_blackHole (h.forcing at_ref holding)
          exact comes_at_once h (force_forcing holding) (.count m _) ⟨_, means, .error _⟩
        | done value =>
          exact comes_at_once h (force_done holding) (.count m _)
            (h.settled (.ok value) at_ref holding)
        | failed e =>
          exact comes_at_once h (force_failed holding) (.refl m)
            (h.settled (.error e) at_ref holding)
      | _ => exact absurd rfl plain

/-- The thunks are forced one after the other, each with enough fuel, and whatever the
outcomes of those before. -/
inductive Forced : Machine → List Nat → List (Except Error Value) → Machine → Prop where
  | nil (m : Machine) : Forced m [] [] m
  | cons {m m₁ m₂ : Machine} {ref enough : Nat} {refs : List Nat} {outcome : Except Error Value}
      {outcomes : List (Except Error Value)} :
      (∀ fuel, enough ≤ fuel → (run fuel (.force (.thunk ref))).Ends m outcome m₁) →
      Forced m₁ refs outcomes m₂ → Forced m (ref :: refs) (outcome :: outcomes) m₂

theorem Invariant.forced (loaded : g.Loaded start) (h : g.Invariant start [] m) {refs : List Nat}
    (members : ∀ ref ∈ refs, ∃ node, g ref = some node) :
    ∃ outcomes m', Forced m refs outcomes m' ∧
      List.Forall₂ (fun ref outcome => g.Agrees start (.thunk ref) outcome) refs outcomes := by
  induction refs generalizing m with
  | nil => exact ⟨[], m, .nil m, .nil⟩
  | cons ref refs ih =>
    have holds : g.Holds (.thunk ref) := by
      rintro _ ⟨⟩
      exact members ref (by simp)
    obtain ⟨enough, expected, outcome, m₁, ends, means, outcomes, after⟩ :=
      forcesAgree loaded m.waiting h (Nat.le_refl _) (.thunk rfl trivial) holds
        (fun _ member => nomatch member)
    obtain ⟨rest, m₂, forced, agree⟩ :=
      ih after.invariant fun other member => members other (by simp [member])
    exact ⟨outcome :: rest, m₂, .cons ends forced, .cons ⟨expected, means, outcomes⟩ agree⟩

end Graph

/-! Computations that do what a node says -/

namespace Node

variable {start : Machine} {scope : Scope}

theorem describes_returns {body : Expr} {value : Value}
    (answers : ∀ m, start.Continues m → ∃ found m', start.since.Values value found ∧ m.Quiet m' ∧
      ∀ fuel, (Eval.evalExpr (run fuel) fuel scope body).Ends m (.ok found) m') :
    (returns value).Describes start (.eval body scope) := by
  refine ⟨1, fun m continues => ?_⟩
  obtain ⟨found, m', alike, quiet, ends⟩ := answers m continues
  refine ⟨found, m', alike, quiet, fun fuel positive => ?_⟩
  obtain ⟨fuel, rfl⟩ : ∃ less, fuel = less + 1 := ⟨fuel - 1, by omega⟩
  exact ends fuel

theorem describes_arg {index depth : Nat} {value : Value}
    (found : (scope[depth]?.bind fun args => args[index]?) = some value) :
    (returns value).Describes start (.eval (.arg index depth) scope) := by
  refine describes_returns fun m _ => ⟨value, m, .refl start.reflexive_since value, .refl m, ?_⟩
  intro fuel
  rw [Eval.evalExpr, found]
  rfl

theorem describes_reg {name : String} {value : Value} (found : start.register? name = some value) :
    (returns value).Describes start (.eval (.reg name) scope) := by
  refine describes_returns fun m continues =>
    ⟨value, m, .refl start.reflexive_since value, .refl m, ?_⟩
  intro fuel
  have found' : m.register? name = some value := by
    rw [Machine.register?, continues.registers]
    exact found
  rw [Eval.evalExpr, Eval.ends_get_bind, found']
  rfl

theorem describes_lit (literal : Literal) :
    (returns literal.value).Describes start (.eval (.lit literal) scope) := by
  refine describes_returns fun m continues => ?_
  obtain ⟨value, m', ends, alike, quiet⟩ := Eval.instantiate_ends start literal continues
  exact ⟨value, m', alike, quiet, fun _ => ends⟩

theorem evalAll_ends {operands : List Expr} {args : List Value}
    (each : List.Forall₂ (fun e value => (returns value).Describes start (.eval e scope))
      operands args) :
    ∃ depth, ∀ m, start.Continues m → ∃ found m', start.since.Lists args found ∧ m.Quiet m' ∧
      ∀ fuel, depth ≤ fuel → (Eval.evalAll (run fuel) scope operands).Ends m (.ok found) m' := by
  induction each with
  | nil => exact ⟨0, fun m _ => ⟨[], m, .nil, .refl m, fun _ _ => rfl⟩⟩
  | cons head _ ih =>
    obtain ⟨depth, first⟩ := head
    obtain ⟨depth', rest⟩ := ih
    refine ⟨max depth depth', fun m continues => ?_⟩
    obtain ⟨found, m₁, alike, quiet, ends⟩ := first m continues
    obtain ⟨others, m₂, lists, quiet', ends'⟩ := rest m₁ (continues.trans quiet.toContinues)
    refine ⟨found :: others, m₂, .cons alike lists, quiet.trans quiet', fun fuel le => ?_⟩
    rw [Eval.evalAll, List.mapM_cons]
    exact (ends fuel (Nat.le_trans (Nat.le_max_left _ _) le)).bind
      ((ends' fuel (Nat.le_trans (Nat.le_max_right _ _) le)).bind rfl)

theorem describes_prim (op : PrimOp) {operands : List Expr} {args : List Value}
    (each : List.Forall₂ (fun e value => (returns value).Describes start (.eval e scope))
      operands args) :
    (calls op args).Describes start (.eval (.perform (.prim op) operands) scope) := by
  obtain ⟨depth, evaluated⟩ := evalAll_ends each
  refine ⟨depth + 1, fun m continues => ?_⟩
  obtain ⟨found, m', lists, quiet, ends⟩ := evaluated m continues
  refine ⟨found, m', lists, quiet, fun fuel outcome m'' executed => ?_⟩
  exact (ends (fuel + depth) (Nat.le_add_left _ _)).bind
    (execute_mono (Nat.le_add_right _ _) executed)

end Node

/-- Each thunk of a graph has one outcome, the one that evaluation without memory comes to,
or a black hole if that does not end. Forcing ends with it, whichever thunks of the graph
were forced before. -/
theorem sharing_keeps_outcomes {g : Graph} {start : Machine} (loaded : g.Loaded start) :
    ∃ meaning : Nat → Except Error Value,
      (∀ ref node, g ref = some node →
        Attempt.Means (fun fuel => g.evaluate fuel (.thunk ref)) (meaning ref)) ∧
      ∀ refs : List Nat, (∀ ref ∈ refs, ∃ node, g ref = some node) →
        ∃ outcomes m', Graph.Forced start refs outcomes m' ∧
          List.Forall₂ (fun ref => Outcomes start.since.Values (meaning ref)) refs outcomes := by
  choose meaning means using
    fun ref => Attempt.exists_means fun fuel => g.evaluate fuel (.thunk ref)
  refine ⟨meaning, fun ref _ _ => means ref, fun refs members => ?_⟩
  obtain ⟨outcomes, m', forced, agree⟩ := loaded.invariant.forced loaded members
  refine ⟨outcomes, m', forced, agree.imp fun ref outcome agrees => ?_⟩
  obtain ⟨expected, means', outcomes⟩ := agrees
  rwa [(g.rising_evaluate (.thunk ref)).means_unique (means ref) means']

/-- Thunk 1 uses thunk 0 twice; thunks 2 and 3 lie on a cycle, and 3 uses thunk 1 too. -/
theorem sharing_keeps_outcomes_cycle :
    ∃ (g : Graph) (start : Machine) (meaning : Nat → Except Error Value),
      g.Loaded start ∧
      g 1 = some (.calls .intMul [.thunk 0, .thunk 0]) ∧ g 2 = some (.returns (.thunk 3)) ∧
      g 3 = some (.calls .intMul [.thunk 1, .thunk 2]) ∧
      meaning 1 = .ok (.scalar (.int 9)) ∧ meaning 3 = .error .blackHole ∧
      ∀ refs ∈ [[3, 1, 2], [2, 3, 0, 1]], ∃ outcomes m', Graph.Forced start refs outcomes m' ∧
        List.Forall₂ (fun ref => Outcomes start.since.Values (meaning ref)) refs outcomes := by
  let g : Graph := fun
    | 0 => some (.returns (.scalar (.int 3)))
    | 1 => some (.calls .intMul [.thunk 0, .thunk 0])
    | 2 => some (.returns (.thunk 3))
    | 3 => some (.calls .intMul [.thunk 1, .thunk 2])
    | _ => none
  let start : Machine :=
    { thunks := #[.pending (.eval (.lit (.scalar (.int 3))) []),
        .pending (.eval (.perform (.prim .intMul) [.arg 0 0, .arg 0 0]) [[.thunk 0]]),
        .pending (.eval (.reg "loop") []),
        .pending (.eval (.perform (.prim .intMul) [.arg 0 0, .arg 1 0]) [[.thunk 1, .thunk 2]])]
      registers := [("loop", .thunk 3)] }
  have loaded : g.Loaded start := by
    constructor
    · rintro (_ | _ | _ | _ | ref) node ⟨⟩ <;> simp [Node.values, Graph.Holds, g]
    · rintro (_ | _ | _ | _ | ref) node ⟨⟩
      · exact ⟨_, rfl, Node.describes_lit (.scalar (.int 3))⟩
      · exact ⟨_, rfl, Node.describes_prim _ (.cons (Node.describes_arg rfl)
          (.cons (Node.describes_arg rfl) .nil))⟩
      · exact ⟨_, rfl, Node.describes_reg rfl⟩
      · exact ⟨_, rfl, Node.describes_prim _ (.cons (Node.describes_arg rfl)
          (.cons (Node.describes_arg rfl) .nil))⟩
  obtain ⟨meaning, means, forces⟩ := sharing_keeps_outcomes loaded
  refine ⟨g, start, meaning, loaded, rfl, rfl, rfl, ?_, ?_, ?_⟩
  · exact (g.rising_evaluate (.thunk 1)).means_unique (means 1 _ rfl) (.inl ⟨3, rfl⟩)
  · -- Thunk 3 needs both operands, the second is thunk 2, and that returns thunk 3.
    have third : g 3 = some (.calls .intMul [.thunk 1, .thunk 2]) := rfl
    have second : g 2 = some (.returns (.thunk 3)) := rfl
    have outside : g.Needs [] fun fuel => g.evaluate fuel (.thunk 3) :=
      fun _ member => nomatch member
    have operands : g.Needs [3] fun fuel => [Value.thunk 1, .thunk 2].mapM (g.evaluate fuel) :=
      (outside.inside third).first
    simp only [List.mapM_cons] at operands
    have rest := operands.second (g.rising_evaluate (.thunk 1)) (k := 3) rfl
    have cycle : g.Needs [2, 3] fun fuel => g.evaluate fuel (.thunk 3) :=
      rest.first.first.inside second
    exact (g.rising_evaluate (.thunk 3)).means_unique (means 3 _ third)
      (cycle.means_blackHole (by simp))
  · intro refs member
    refine forces refs fun ref inside => ?_
    have known : ref < 4 := by
      simp only [List.mem_cons, List.not_mem_nil, or_false] at member
      rcases member with rfl | rfl <;> simp at inside <;> omega
    match ref with
    | 0 | 1 | 2 | 3 => exact ⟨_, rfl⟩

end CallByNeed
