import CallByNeed.Proofs.Containment
import CallByNeed.Proofs.Memo

set_option autoImplicit false

/-!
Lists that a text is unpacked to.

The list comes into being while it is walked: forcing a tail makes the next one,
and the last tail forces what follows the text. So reading the list goes through
the characters, each with a tail that lies beside the cells of the machine, and
then reads what follows as if there were no text before it.
-/

namespace CallByNeed

open Correspondence

/-! Reading lists -/

abbrev Forces (m : Machine) (value : Value) : Except Error Value → Machine → Prop :=
  Completes (fun fuel => run fuel (.force value)) m

/-- The list is forced, with all its elements. -/
abbrev Reads (m : Machine) (list : Value) : Except Error (List Value) → Machine → Prop :=
  Completes (fun fuel => Eval.listValues (run fuel) fuel list) m

theorem listValues_mono {fuel fuel' length length' : Nat} (le : fuel ≤ fuel')
    (le' : length ≤ length') {list : Value} {m m' : Machine} {outcome : Except Error (List Value)}
    (ended : (Eval.listValues (run fuel) length list).Ends m outcome m') :
    (Eval.listValues (run fuel') length' list).Ends m outcome m' :=
  (Eval.simulates_listValues (fun _ _ _ => run_simulates .same le) le'
    (Values.refl reflexive_equal list)).ends_of_eq Lists.eq ended

theorem rises_listValues (list : Value) :
    Rises fun fuel => Eval.listValues (run fuel) fuel list :=
  fun _ _ _ _ _ le => listValues_mono le le

section Simulation

variable {A : Alignment} {m n m' : Machine} (machines : A.Machines m n) {value value' : Value}
  (values : A.Values (A.reached m) value value')
include machines values

theorem Forces.simulates {outcome : Except Error Value} (h : Forces m value outcome m') :
    ∃ outcome' n', Forces n value' outcome' n' ∧
      Outcomes (A.Values (A.reached m')) outcome outcome' ∧ A.Machines m' n' := by
  obtain ⟨fuel, ended⟩ := h
  obtain ⟨-, outcome', n', ended', alike⟩ :=
    run_simulates A (Nat.le_refl fuel) (.force values) (le_refl _) machines ended
  exact ⟨outcome', n', ⟨fuel, ended'⟩, alike⟩

theorem Reads.simulates {outcome : Except Error (List Value)} (h : Reads m value outcome m') :
    ∃ outcome' n', Reads n value' outcome' n' ∧
      Outcomes (A.Lists (A.reached m')) outcome outcome' ∧ A.Machines m' n' := by
  obtain ⟨fuel, ended⟩ := h
  obtain ⟨-, outcome', n', ended', alike⟩ := Eval.simulates_listValues
    (fun _ _ _ => run_simulates A (Nat.le_refl fuel)) (Nat.le_refl fuel) values (le_refl _)
    machines ended
  exact ⟨outcome', n', ⟨fuel, ended'⟩, alike⟩

end Simulation

/-- Nothing else is done with a list before it is forced. -/
theorem listValues_succ (run : Eval.Runner) (fuel : Nat) :
    ∃ rest, ∀ list, Eval.listValues run (fuel + 1) list = run (.force list) >>= rest :=
  ⟨_, fun _ => rfl⟩

/-- Forcing the value in this machine does not give a thunk. -/
def Machine.ForcesFlat (m : Machine) (value : Value) : Prop :=
  ∀ found m', Forces m value (.ok found) m' → found.isThunk = false

section Reading

variable {m m' between : Machine} {list value tail : Value} {outcome : Except Error (List Value)}

theorem forces_plain {forced : Except Error Value} (plain : value.isThunk = false) :
    Forces m value forced m' ↔ forced = .ok value ∧ m' = m := by
  constructor
  · intro h
    exact (rises_run _).unique h ⟨1, force_plain plain m 0⟩
  · rintro ⟨rfl, rfl⟩
    exact ⟨1, force_plain plain _ 0⟩

theorem Reads.forces (h : Reads m list outcome m') :
    ∃ forced between, Forces m list forced between := by
  obtain ⟨fuel, ended⟩ := h
  obtain ⟨rest, unfolds⟩ := listValues_succ (run fuel) fuel
  have later := listValues_mono (Nat.le_refl fuel) (Nat.le_succ fuel) ended
  rw [unfolds] at later
  rcases Eval.ends_bind.mp later with ⟨e, failed, -⟩ | ⟨value, between, done, -⟩
  · exact ⟨.error e, m', fuel, failed⟩
  · exact ⟨.ok value, between, fuel, done⟩

theorem Forces.reads_iff (h : Forces m list (.ok value) between) (plain : value.isThunk = false) :
    Reads m list outcome m' ↔ Reads between value outcome m' := by
  obtain ⟨enough, forced⟩ := h
  have alike (fuel : Nat) (le : enough ≤ fuel + 1) :
      (Eval.listValues (run (fuel + 1)) (fuel + 1) list).Ends m outcome m' ↔
        (Eval.listValues (run (fuel + 1)) (fuel + 1) value).Ends between outcome m' := by
    obtain ⟨rest, unfolds⟩ := listValues_succ (run (fuel + 1)) fuel
    rw [unfolds, unfolds, (run_mono le forced).bind_iff, (force_plain plain between fuel).bind_iff]
  constructor
  · rintro ⟨fuel, ended⟩
    have later := rises_listValues list (show fuel ≤ fuel + enough + 1 by omega) ended
    exact ⟨_, (alike _ (by omega)).mp later⟩
  · rintro ⟨fuel, ended⟩
    have later := rises_listValues value (show fuel ≤ fuel + enough + 1 by omega) ended
    exact ⟨_, (alike _ (by omega)).mpr later⟩

theorem Forces.reads_error {e : Error} (h : Forces m list (.error e) between) :
    Reads m list (.error e) between := by
  obtain ⟨fuel, failed⟩ := h
  refine ⟨fuel + 1, ?_⟩
  obtain ⟨rest, unfolds⟩ := listValues_succ (run (fuel + 1)) fuel
  show (Eval.listValues (run (fuel + 1)) (fuel + 1) list).Ends _ _ _
  rw [unfolds]
  exact (run_mono (Nat.le_succ fuel) failed).bind_error

theorem reads_cons {id : Nat} {c : Char} :
    Reads m (.data id 1 [.char c, tail]) outcome m' ↔
      ∃ others, Reads m tail others m' ∧ outcome = others.map (.char c :: ·) := by
  have unfolds (fuel : Nat) :
      (Eval.listValues (run (fuel + 1)) (fuel + 1) (.data id 1 [.char c, tail])).Ends m outcome m' ↔
        ∃ others, (Eval.listValues (run (fuel + 1)) fuel tail).Ends m others m' ∧
          outcome = others.map (.char c :: ·) :=
    Eval.ends_bind_pure
  constructor
  · rintro ⟨fuel, ended⟩
    obtain ⟨others, ended', rfl⟩ :=
      (unfolds fuel).mp (listValues_mono (Nat.le_succ fuel) (Nat.le_succ fuel) ended)
    exact ⟨others, ⟨fuel + 1, listValues_mono (Nat.le_refl _) (Nat.le_succ fuel) ended'⟩, rfl⟩
  · rintro ⟨others, ⟨fuel, ended⟩, rfl⟩
    exact ⟨fuel + 1, (unfolds fuel).mpr
      ⟨others, listValues_mono (Nat.le_succ fuel) (Nat.le_refl fuel) ended, rfl⟩⟩

/-- A cell that waits keeps the outcome of its computation. -/
theorem forces_pending {ref : Nat} {computation : Computation} {forced : Except Error Value}
    (pending : m.cell ref = .pending computation) :
    Forces m (.thunk ref) forced m' ↔ ∃ between,
      Completes (fun fuel => Eval.compute (run fuel) computation >>= fun value =>
        run fuel (.force value)) (m.started ref) forced between ∧
        m' = between.setCell ref (.ofOutcome forced) := by
  have unfolds (fuel : Nat) : (run (fuel + 1) (.force (.thunk ref))).Ends m forced m' ↔
      ∃ between, (Eval.compute (run fuel) computation >>= fun value =>
        run fuel (.force value)).Ends (m.started ref) forced between ∧
        m' = between.setCell ref (.ofOutcome forced) := by
    show (Eval.forceThunk (run fuel) ref).Ends _ _ _ ↔ _
    rw [Eval.forceThunk, Eval.ends_get_bind, pending]
    exact Eval.ends_remember
  constructor
  · rintro ⟨fuel, ended⟩
    obtain ⟨between, done, rfl⟩ := (unfolds fuel).mp (run_mono (Nat.le_succ fuel) ended)
    exact ⟨between, ⟨fuel, done⟩, rfl⟩
  · rintro ⟨between, ⟨fuel, done⟩, rfl⟩
    exact ⟨fuel + 1, (unfolds fuel).mpr ⟨between, done, rfl⟩⟩

end Reading

/-! Tails that lie beside the machine -/

namespace Machine

def withThunk (m : Machine) (computation : Computation) : Machine :=
  { m with
    thunks := m.thunks.push (.pending computation)
    counters := { m.counters with thunksCreated := m.counters.thunksCreated + 1 } }

/-- The machine after a list cell has been made whose tail is the rest of a text. -/
def withTail (m : Machine) (chars : List Char) (rest : Value) : Machine :=
  { m.withThunk (.unpackRest chars rest) with nextData := m.nextData + 1 }

/-- The list cell of a character, when so many tails have been made before. -/
def listCell (m : Machine) (c : Char) (made : Nat) : Value :=
  .data (m.nextData + made) 1 [.char c, .thunk (m.thunks.size + made)]

namespace Lengthened

variable {m n : Machine} {data cells started : Nat} (h : m.Lengthened data cells started n)
include h

theorem withThunk (computation : Computation) :
    m.Lengthened data (cells + 1) started (n.withThunk computation) :=
  { h with
    size := by
      rw [Machine.withThunk, Array.size_push, h.size, Nat.add_assoc]
    cell := fun ref inside => by
      have inside' : ref < n.thunks.size := by
        rw [h.size]
        omega
      rw [← h.cell ref inside]
      exact cell_of_push rfl inside'
    counters := by
      rw [Machine.withThunk, h.counters]
      rfl }

theorem withTail (chars : List Char) (rest : Value) :
    m.Lengthened (data + 1) (cells + 1) started (n.withTail chars rest) :=
  { h.withThunk (.unpackRest chars rest) with
    nextData := by
      rw [Machine.withTail, h.nextData, Nat.add_assoc] }

theorem start : m.Lengthened data cells (started + 1) (n.started (m.thunks.size + started)) :=
  { h with
    size := by rw [size_started, h.size]
    cell := fun ref inside => by
      rw [cell_started_of_ne (by omega), h.cell ref inside]
    counters := by
      rw [Machine.started, h.counters]
      rfl
    journal := by
      rw [Machine.started, h.journal, List.range'_1_concat]
      simp }

theorem setCell {ref : Nat} (beyond : m.thunks.size ≤ ref) (new : Cell) :
    m.Lengthened data cells started (n.setCell ref new) :=
  { h with
    size := by rw [size_setCell, h.size]
    cell := fun other inside => by
      rw [cell_setCell_of_ne _ _ (by omega), h.cell other inside] }

end Lengthened

/-- The first `made` tails have been forced, and the next one waits to go on with the
characters. -/
structure Awaits (m : Machine) (made : Nat) (chars : List Char) (rest : Value) (n : Machine) : Prop
    extends m.Lengthened (made + 1) (made + 1) made n where
  pending : n.cell (m.thunks.size + made) = .pending (.unpackRest chars rest)

variable {m n : Machine} {made : Nat} {chars : List Char} {rest : Value}

theorem awaits_withTail (m : Machine) (chars : List Char) (rest : Value) :
    m.Awaits 0 chars rest (m.withTail chars rest) where
  toLengthened := (Lengthened.refl m).withTail chars rest
  pending := cell_size_of_push rfl

theorem Awaits.force_cons {c : Char} (h : m.Awaits made (c :: chars) rest n) :
    ∃ n', Forces n (.thunk (m.thunks.size + made)) (.ok (m.listCell c (made + 1))) n' ∧
      m.Awaits (made + 1) chars rest n' := by
  let marked := n.started (m.thunks.size + made)
  have marks : m.Lengthened (made + 1) (made + 1) (made + 1) marked := h.start
  have made_eq : marked.listCell c 0 = m.listCell c (made + 1) := by
    rw [listCell, listCell, marks.nextData, marks.size]
    rfl
  refine ⟨(marked.withTail chars rest).setCell (m.thunks.size + made)
    (.done (m.listCell c (made + 1))), ?_, ?_⟩
  · refine (forces_pending h.pending).mpr ⟨marked.withTail chars rest, ⟨1, ?_⟩, rfl⟩
    rw [← made_eq]
    exact rfl
  · refine ⟨(marks.withTail chars rest).setCell (by omega) _, ?_⟩
    rw [cell_setCell_of_ne _ _ (by omega), ← marks.size]
    exact cell_size_of_push rfl

/-- The last tail forces what follows the text, and keeps its outcome. -/
theorem Awaits.force_nil (h : m.Awaits made [] rest n)
    (flat : (n.started (m.thunks.size + made)).ForcesFlat rest) {outcome : Except Error Value} {n' : Machine} :
    Forces n (.thunk (m.thunks.size + made)) outcome n' ↔
      ∃ between, Forces (n.started (m.thunks.size + made)) rest outcome between ∧
        n' = between.setCell (m.thunks.size + made) (.ofOutcome outcome) := by
  rw [forces_pending h.pending]
  refine exists_congr fun between => and_congr_left' ?_
  show Completes (fun fuel => run fuel (.force rest) >>= fun value => run fuel (.force value))
    _ _ _ ↔ _
  rw [completes_bind (rises_run _) fun value => rises_run (.force value)]
  constructor
  · rintro (⟨e, failed, rfl⟩ | ⟨value, after, done, again⟩)
    · exact failed
    · obtain ⟨rfl, rfl⟩ := (forces_plain (flat value after done)).mp again
      exact done
  · intro ended
    cases outcome with
    | error e => exact .inl ⟨e, ended, rfl⟩
    | ok value =>
      exact .inr ⟨value, between, ended, (forces_plain (flat _ _ ended)).mpr ⟨rfl, rfl⟩⟩

end Machine

/-! Reading through the tails -/

/-- What follows a text is forced, its outcome is kept in the last tail, and its value is read. -/
inductive ReadsBehind (m : Machine) (last : Nat) (rest : Value) :
    Except Error (List Value) → Machine → Prop where
  | error {e : Error} {between : Machine} : Forces m rest (.error e) between →
      ReadsBehind m last rest (.error e) (between.setCell last (.failed e))
  | ok {value : Value} {between m' : Machine} {outcome : Except Error (List Value)} :
      Forces m rest (.ok value) between →
      Reads (between.setCell last (.done value)) value outcome m' →
      ReadsBehind m last rest outcome m'

/-- The characters before the values, or the same error. -/
def behind (chars : List Char) (outcome : Except Error (List Value)) : Except Error (List Value) :=
  outcome.map (chars.map .char ++ ·)

@[simp] theorem behind_nil (outcome : Except Error (List Value)) : behind [] outcome = outcome := by
  cases outcome <;> rfl

@[simp] theorem behind_cons (c : Char) (chars : List Char) (outcome : Except Error (List Value)) :
    behind (c :: chars) outcome = (behind chars outcome).map (.char c :: ·) := by
  cases outcome <;> rfl

namespace Machine.Awaits

variable {m n : Machine} {made : Nat} {chars : List Char} {rest : Value}

theorem reads_nil (h : m.Awaits made [] rest n)
    (flat : (n.started (m.thunks.size + made)).ForcesFlat rest)
    {outcome : Except Error (List Value)} {m' : Machine} :
    Reads n (.thunk (m.thunks.size + made)) outcome m' ↔
      ReadsBehind (n.started (m.thunks.size + made)) (m.thunks.size + made) rest outcome m' := by
  constructor
  · intro reads
    obtain ⟨forced, after, forces⟩ := reads.forces
    obtain ⟨between, ended, rfl⟩ := (h.force_nil flat).mp forces
    cases forced with
    | error e =>
      obtain ⟨rfl, rfl⟩ := (rises_listValues _).unique reads forces.reads_error
      exact .error ended
    | ok value => exact .ok ended ((forces.reads_iff (flat _ _ ended)).mp reads)
  · rintro (⟨failed⟩ | ⟨ended, reads⟩)
    · exact ((h.force_nil flat).mpr ⟨_, failed, rfl⟩).reads_error
    · exact (((h.force_nil flat).mpr ⟨_, ended, rfl⟩).reads_iff (flat _ _ ended)).mpr reads

/-- The induction is on the characters: each tail but the last gives a list cell with the next
character and the next tail. -/
theorem reads_iff (h : m.Awaits made chars rest n) (c : Char) :
    ∃ before, m.Lengthened (made + chars.length + 1) (made + chars.length + 1)
        (made + chars.length + 1) before ∧
      (before.ForcesFlat rest → ∀ outcome m', Reads n (m.listCell c made) outcome m' ↔
        ∃ others, ReadsBehind before (m.thunks.size + (made + chars.length)) rest others m' ∧
          outcome = behind (c :: chars) others) := by
  induction chars generalizing made n c with
  | nil =>
    refine ⟨_, h.start, fun flat outcome m' => ?_⟩
    rw [listCell, reads_cons]
    simp only [h.reads_nil flat, behind_cons, behind_nil, List.length_nil, Nat.add_zero]
  | cons d chars ih =>
    obtain ⟨next, forces, awaits⟩ := h.force_cons
    obtain ⟨before, lengthened, alike⟩ := ih awaits d
    have count : made + 1 + chars.length = made + (d :: chars).length := by
      rw [List.length_cons]
      omega
    rw [count] at lengthened alike
    refine ⟨before, lengthened, fun flat outcome m' => ?_⟩
    rw [listCell, reads_cons]
    simp only [forces.reads_iff rfl, alike flat, behind_cons c]
    constructor
    · rintro ⟨_, ⟨others, reads, rfl⟩, rfl⟩
      exact ⟨others, reads, rfl⟩
    · rintro ⟨others, reads, rfl⟩
      exact ⟨_, ⟨others, reads, rfl⟩, rfl⟩

end Machine.Awaits

/-! With and without the text -/

section Beside

variable {m n : Machine} {rest : Value} (contained : m.SelfContained) (holds : m.Holds rest)
  {data cells started last : Nat} (beside : m.Lengthened data cells started n)
  (few : started ≤ cells)
include contained holds beside few

theorem Machine.ForcesFlat.lengthened (flat : m.ForcesFlat rest) : n.ForcesFlat rest := by
  intro found after forces
  have values := holds.mono (Alignment.given_embeds_gather m data cells)
  obtain ⟨_, _, forces', ⟨found'⟩, -⟩ := forces.simulates (beside.gather contained few) values
  rw [found'.isThunk_eq]
  exact flat _ _ forces'

variable (flat : m.ForcesFlat rest) (low : m.thunks.size ≤ last)
  (high : last < m.thunks.size + cells)
include flat low high

theorem Reads.readsBehind {outcome : Except Error (List Value)} {m' : Machine}
    (reads : Reads m rest outcome m') :
    ∃ outcome' n', ReadsBehind n last rest outcome' n' ∧
      Outcomes ((Alignment.spread m.nextData data m.thunks.size cells).Lists ()) outcome outcome' ∧
      (Alignment.spread m.nextData data m.thunks.size cells).Machines m' n' := by
  have free (i : Nat) : ¬ Moved m.thunks.size cells i last := by grind [Moved]
  have values := holds.mono (Alignment.given_embeds_spread m data cells)
  obtain ⟨forced, between, forces⟩ := reads.forces
  obtain ⟨forced', between', forces', outcomes, machines⟩ :=
    forces.simulates (beside.spread contained few) values
  cases outcomes with
  | error e =>
    obtain ⟨rfl, rfl⟩ := (rises_listValues _).unique reads forces.reads_error
    exact ⟨_, _, .error forces', .error e, machines.setCell_right free _⟩
  | @ok value value' found =>
    have reads' := (forces.reads_iff (flat _ _ forces)).mp reads
    obtain ⟨outcome', n', ended, alike⟩ :=
      reads'.simulates (machines.setCell_right free (.done value')) found
    exact ⟨outcome', n', .ok forces' ended, alike⟩

theorem ReadsBehind.reads {outcome' : Except Error (List Value)} {n' : Machine}
    (reads : ReadsBehind n last rest outcome' n') :
    ∃ outcome m', Reads m rest outcome m' := by
  have free (i : Nat) : ¬ Moved m.thunks.size cells i last := by grind [Moved]
  have values := holds.mono (Alignment.given_embeds_gather m data cells)
  obtain ⟨forces⟩ | @⟨value, between, _, _, forces, ended⟩ := reads
  · obtain ⟨_, m', forces', ⟨⟩, -⟩ := forces.simulates (beside.gather contained few) values
    exact ⟨_, m', forces'.reads_error⟩
  · obtain ⟨_, m', forces', ⟨found⟩, machines⟩ :=
      forces.simulates (beside.gather contained few) values
    obtain ⟨outcome, m'', reads', -⟩ :=
      ended.simulates (machines.setCell_left free (.done value)) found
    exact ⟨outcome, m'', (forces'.reads_iff (flat _ _ forces')).mpr reads'⟩

end Beside

/-! Texts -/

/-- The list of the text and what follows it is made and read. -/
def readUnpacked (text : String) (rest : Value) (fuel : Nat) : Eval (List Value) :=
  Eval.unpackAppend (run fuel) text rest >>= fun list => Eval.listValues (run fuel) fuel list

theorem rises_unpackAppend (text : String) (rest : Value) :
    Rises fun fuel => Eval.unpackAppend (run fuel) text rest := by
  intro fuel fuel' m outcome m' le ended
  exact (Eval.simulates_unpackAppend (fun _ _ _ => run_simulates .same le) text
    (Values.refl reflexive_equal rest)).ends_same ended

theorem rises_readUnpacked (text : String) (rest : Value) : Rises (readUnpacked text rest) :=
  (rises_unpackAppend text rest).bind rises_listValues

/-- Both readings end with the same error, or the one on the right with the characters and then
the values of the one on the left. The machines hold the same, but for cells made since `start`
that stand for none on the left, and what was given out after them is moved. -/
def AppendEnd (start : Machine) (text : String) (outcome : Except Error (List Value)) (m : Machine)
    (outcome' : Except Error (List Value)) (n : Machine) : Prop :=
  ∃ data first cells, start.nextData ≤ data ∧ start.thunks.size ≤ first ∧
    cells ≤ max 1 text.length ∧
    Outcomes (fun values values' => ∃ others, values' = text.toList.map .char ++ others ∧
      (Alignment.spread data text.length first cells).Lists () values others) outcome outcome' ∧
    (Alignment.spread data text.length first cells).Machines m n

section Texts

variable {text : String} {c : Char} {chars : List Char}

theorem length_of_spelled (spelled : text.toList = c :: chars) :
    text.length = chars.length + 1 := by
  rw [← String.length_toList, spelled, List.length_cons]

theorem unpackAppend_completes (spelled : text.toList = c :: chars) (m : Machine) (rest : Value) :
    Completes (fun fuel => Eval.unpackAppend (run fuel) text rest) m (.ok (m.listCell c 0))
      (m.withTail chars rest) := by
  refine ⟨0, ?_⟩
  simp only [Eval.unpackAppend, spelled]
  exact rfl

theorem readUnpacked_iff (spelled : text.toList = c :: chars) (m : Machine) (rest : Value) :
    ∃ before, m.Lengthened text.length text.length text.length before ∧
      (before.ForcesFlat rest → ∀ outcome n, Completes (readUnpacked text rest) m outcome n ↔
        ∃ others, ReadsBehind before (m.thunks.size + chars.length) rest others n ∧
          outcome = behind text.toList others) := by
  obtain ⟨before, lengthened, alike⟩ := (Machine.awaits_withTail m chars rest).reads_iff c
  rw [Nat.zero_add, ← length_of_spelled spelled] at lengthened
  rw [Nat.zero_add, ← spelled] at alike
  refine ⟨before, lengthened, fun flat outcome n => ?_⟩
  rw [← alike flat]
  exact (unpackAppend_completes spelled m rest).bind_iff (rises_unpackAppend text rest)
    rises_listValues

end Texts

/-! With no text before it, what follows is forced at once -/

section Empty

variable {m n between : Machine} {text : String} {rest : Value} (empty : text.toList = [])
include empty

theorem unpackAppend_of_empty (run : Eval.Runner) (rest : Value) :
    Eval.unpackAppend run text rest =
      tryCatch (run (.force rest)) fun e => Eval.newThunk (.fail e) := by
  rw [Eval.unpackAppend, empty]
  rfl

theorem readUnpacked_forces {outcome : Except Error (List Value)}
    (h : Completes (readUnpacked text rest) m outcome n) :
    ∃ forced between, Forces m rest forced between := by
  obtain ⟨fuel, ended⟩ := h
  have unpacked : ∃ list after,
      (Eval.unpackAppend (run fuel) text rest).Ends m list after := by
    rcases Eval.ends_bind.mp ended with ⟨e, failed, -⟩ | ⟨list, after, done, -⟩
    · exact ⟨_, _, failed⟩
    · exact ⟨_, _, done⟩
  obtain ⟨list, after, ended'⟩ := unpacked
  rw [unpackAppend_of_empty empty] at ended'
  rcases Eval.ends_tryCatch.mp ended' with ⟨value, done, -⟩ | ⟨e, between, failed, -⟩
  · exact ⟨_, _, fuel, done⟩
  · exact ⟨_, _, fuel, failed⟩

theorem Forces.readUnpacked_iff {value : Value} (h : Forces m rest (.ok value) between)
    (plain : value.isThunk = false) {outcome : Except Error (List Value)} :
    Completes (readUnpacked text rest) m outcome n ↔ Reads m rest outcome n := by
  have unpacked : Completes (fun fuel => Eval.unpackAppend (run fuel) text rest) m
      (.ok value) between := by
    obtain ⟨fuel, done⟩ := h
    refine ⟨fuel, ?_⟩
    simp only [unpackAppend_of_empty empty]
    exact Eval.ends_tryCatch.mpr (.inl ⟨value, done, rfl⟩)
  rw [h.reads_iff plain]
  exact unpacked.bind_iff (rises_unpackAppend text rest) rises_listValues

/-- The error waits in a new thunk, until the list is read. -/
theorem Forces.readUnpacked_error {e : Error} (h : Forces m rest (.error e) between) :
    ∃ n, Completes (readUnpacked text rest) m (.error e) n ∧ between.Lengthened 0 1 1 n := by
  let marked := (between.withThunk (.fail e)).started between.thunks.size
  have unpacked : Completes (fun fuel => Eval.unpackAppend (run fuel) text rest) m
      (.ok (.thunk between.thunks.size)) (between.withThunk (.fail e)) := by
    obtain ⟨fuel, failed⟩ := h
    refine ⟨fuel, ?_⟩
    simp only [unpackAppend_of_empty empty]
    exact Eval.ends_tryCatch.mpr (.inr ⟨e, between, failed, rfl⟩)
  have pending : (between.withThunk (.fail e)).cell between.thunks.size = .pending (.fail e) :=
    Machine.cell_size_of_push rfl
  have forces : Forces (between.withThunk (.fail e)) (.thunk between.thunks.size) (.error e)
      (marked.setCell between.thunks.size (.failed e)) :=
    (forces_pending pending).mpr ⟨marked, ⟨0, rfl⟩, rfl⟩
  refine ⟨_, (unpacked.bind_iff (rises_unpackAppend text rest) rises_listValues).mpr
    forces.reads_error, ?_⟩
  exact (((Machine.Lengthened.refl between).withThunk (.fail e)).start).setCell (Nat.le_refl _) _

end Empty

/-! All texts -/

theorem reflexive_spread (data first : Nat) :
    ((Alignment.spread data 0 first 0).ids ()).Reflexive where
  data i := by
    show Moved _ _ _ _
    simp [Moved]
  closure _ := rfl
  thunk := by
    show Moved _ _ = Eq
    funext i j
    simp [Moved, eq_comm]
  past := ⟨[], by simp, rfl⟩

theorem AppendEnd.refl {text : String} (empty : text.toList = []) (start m : Machine)
    (outcome : Except Error (List Value)) : AppendEnd start text outcome m outcome m := by
  have length : text.length = 0 := by rw [← String.length_toList, empty, List.length_nil]
  have law := reflexive_spread start.nextData start.thunks.size
  refine ⟨start.nextData, start.thunks.size, 0, Nat.le_refl _, Nat.le_refl _, Nat.zero_le _,
    ?_, ?_⟩
  · rw [length]
    cases outcome with
    | error e => exact .error e
    | ok values => exact .ok ⟨values, by rw [empty]; rfl, .refl law values⟩
  · rw [length]
    exact ⟨.refl law m, trivial, fun _ => law.data _, fun _ => rfl, fun _ => law.thunk ▸ rfl⟩

section Append

variable {m : Machine} {text : String} {rest : Value} (contained : m.SelfContained)
  (holds : m.Holds rest) (flat : m.ForcesFlat rest)
include contained holds flat

theorem Reads.readUnpacked {outcome : Except Error (List Value)} {m' : Machine}
    (reads : Reads m rest outcome m') :
    ∃ outcome' n, Completes (readUnpacked text rest) m outcome' n ∧
      AppendEnd m text outcome m' outcome' n := by
  cases spelled : text.toList with
  | nil =>
    obtain ⟨forced, between, forces⟩ := reads.forces
    cases forced with
    | ok value =>
      exact ⟨outcome, m', (forces.readUnpacked_iff spelled (flat _ _ forces)).mpr reads,
        .refl spelled m m' outcome⟩
    | error e =>
      obtain ⟨rfl, rfl⟩ := (rises_listValues _).unique reads forces.reads_error
      obtain ⟨n, ended, lengthened⟩ := forces.readUnpacked_error spelled
      obtain ⟨fuel, failed⟩ := forces
      obtain ⟨moreData, moreCells, contained', -⟩ := contained.ends (.force holds) failed
      refine ⟨_, n, ended, m'.nextData, m'.thunks.size, 1, moreData, moreCells,
        Nat.le_max_left _ _, .error e, ?_⟩
      rw [← String.length_toList, spelled]
      exact lengthened.spread contained' (Nat.le_refl 1)
  | cons c chars =>
    obtain ⟨before, lengthened, alike⟩ := readUnpacked_iff spelled m rest
    have flat' := flat.lengthened contained holds lengthened (Nat.le_refl _)
    have length := length_of_spelled spelled
    obtain ⟨others, n, readsBehind, outcomes, machines⟩ := reads.readsBehind contained holds
      lengthened (Nat.le_refl _) flat (Nat.le_add_right _ chars.length) (by omega)
    refine ⟨_, n, (alike flat' _ n).mpr ⟨others, readsBehind, rfl⟩, m.nextData, m.thunks.size,
      text.length, Nat.le_refl _, Nat.le_refl _, Nat.le_max_right _ _, ?_, machines⟩
    rw [spelled]
    cases outcomes with
    | error e => exact .error e
    | ok lists => exact .ok ⟨_, rfl, lists⟩

theorem readUnpacked_reads {outcome' : Except Error (List Value)} {n : Machine}
    (ended : Completes (readUnpacked text rest) m outcome' n) :
    ∃ outcome m', Reads m rest outcome m' := by
  cases spelled : text.toList with
  | nil =>
    obtain ⟨forced, between, forces⟩ := readUnpacked_forces spelled ended
    cases forced with
    | ok value => exact ⟨_, _, (forces.readUnpacked_iff spelled (flat _ _ forces)).mp ended⟩
    | error e => exact ⟨_, _, forces.reads_error⟩
  | cons c chars =>
    obtain ⟨before, lengthened, alike⟩ := readUnpacked_iff spelled m rest
    have flat' := flat.lengthened contained holds lengthened (Nat.le_refl _)
    have length := length_of_spelled spelled
    obtain ⟨others, readsBehind, -⟩ := (alike flat' _ n).mp ended
    exact readsBehind.reads contained holds lengthened (Nat.le_refl _) flat
      (Nat.le_add_right _ chars.length) (by omega)

end Append

/-! Packing -/

theorem readUnpacked_nil (text : String) (id : Nat) (m : Machine) :
    ∃ n, Completes (readUnpacked text (.data id 0 [])) m (.ok (text.toList.map .char)) n := by
  have forces (m : Machine) : Forces m (.data id 0 []) (.ok (.data id 0 [])) m :=
    (forces_plain rfl).mpr ⟨rfl, rfl⟩
  have reads (m : Machine) : Reads m (.data id 0 []) (.ok []) m := ⟨1, rfl⟩
  cases spelled : text.toList with
  | nil => exact ⟨m, ((forces m).readUnpacked_iff spelled rfl).mpr (reads m)⟩
  | cons c chars =>
    obtain ⟨before, -, alike⟩ := readUnpacked_iff spelled m (.data id 0 [])
    have flat : before.ForcesFlat (.data id 0 []) := by
      intro found m' forced
      obtain ⟨⟨⟩, -⟩ := (forces_plain rfl).mp forced
      rfl
    refine ⟨_, (alike flat _ _).mpr ⟨.ok [], .ok (forces before) (reads _), ?_⟩⟩
    rw [spelled, behind, Except.map, List.append_nil]

@[simp]
theorem packChars_chars (chars : List Char) : Eval.packChars (chars.map .char) = pure chars := by
  induction chars with
  | nil => rfl
  | cons c chars ih =>
    rw [List.map_cons, Value.char, Eval.packChars, ih, pure_bind]

/-- The only operand of an operation is evaluated before it. -/
theorem ends_perform_one {fuel : Nat} {op : Operation} {operand : Expr} {scope : Scope}
    {value : Value} {m between m' : Machine} {outcome : Except Error Value}
    (evaluated : (run fuel (.eval operand scope)).Ends m (.ok value) between)
    (performed : (Eval.perform (run fuel) fuel op [value]).Ends between outcome m') :
    (run (fuel + 1) (.eval (.perform op [operand]) scope)).Ends m outcome m' := by
  have operands : (Eval.evalAll (run fuel) scope [operand]).Ends m (.ok [value]) between := by
    rw [Eval.evalAll, List.mapM_cons, List.mapM_nil]
    exact evaluated.bind rfl
  exact operands.bind performed

theorem pack_unpack (text : String) (scope : Scope) (m : Machine) :
    ∃ m', Completes (fun fuel => run fuel (.eval (.perform .pack [.unpack text]) scope)) m
      (.ok (.str text)) m' := by
  obtain ⟨n, fuel, ended⟩ :=
    readUnpacked_nil text m.nextData { m with nextData := m.nextData + 1 }
  have later := rises_readUnpacked text _ (Nat.le_succ fuel) ended
  rcases Eval.ends_bind.mp later with ⟨e, -, ⟨⟩⟩ | ⟨list, between, unpacked, reads⟩
  have reads' := rises_listValues list (Nat.le_succ (fuel + 1)) reads
  refine ⟨n, fuel + 3, ends_perform_one (ends_perform_one rfl unpacked) (reads'.bind ?_)⟩
  rw [packChars_chars, pure_bind, String.ofList_toList]
  rfl

/-! Forcing one tail after the other -/

def Eval.forceTail (run : Runner) : Value → Eval Value
  | .data _ 1 [_, tail] => run (.force tail)
  | _ => malformed

/-- Forces the tail of a list cell, then the tail of the cell that comes out, and so on. -/
def Eval.forceTails (run : Runner) : Nat → Value → Eval Value
  | 0, list => return list
  | count + 1, list => do forceTail run (← forceTails run count list)

/-- The list of the text and what follows it is made, and its first tails are forced. -/
def forceUnpacked (text : String) (rest : Value) (count fuel : Nat) : Eval Value :=
  Eval.unpackAppend (run fuel) text rest >>= fun list => Eval.forceTails (run fuel) count list

theorem rises_forceTail (cell : Value) : Rises fun fuel => Eval.forceTail (run fuel) cell := by
  intro fuel fuel' m outcome m' le
  simp only [Eval.forceTail]
  split
  · exact run_mono le
  · exact id

theorem rises_forceTails (count : Nat) (list : Value) :
    Rises fun fuel => Eval.forceTails (run fuel) count list := by
  induction count with
  | zero => exact fun _ _ _ _ _ _ => id
  | succ count ih => exact ih.bind rises_forceTail

section Lazily

variable {m : Machine} {text : String} {rest : Value} {c : Char} {chars : List Char}
  (spelled : text.toList = c :: chars)
include spelled

theorem forceUnpacked_iff {count : Nat} {outcome : Except Error Value} {n : Machine} :
    Completes (forceUnpacked text rest count) m outcome n ↔
      Completes (fun fuel => Eval.forceTails (run fuel) count (m.listCell c 0))
        (m.withTail chars rest) outcome n :=
  (unpackAppend_completes spelled m rest).bind_iff (rises_unpackAppend text rest)
    (rises_forceTails count)

theorem forceUnpacked_succ_iff {count : Nat} {d : Char} {n n' : Machine}
    (ended : Completes (forceUnpacked text rest count) m (.ok (m.listCell d count)) n)
    {outcome : Except Error Value} :
    Completes (forceUnpacked text rest (count + 1)) m outcome n' ↔
      Forces n (.thunk (m.thunks.size + count)) outcome n' := by
  rw [forceUnpacked_iff spelled] at ended ⊢
  exact ended.bind_iff (rises_forceTails count _) rises_forceTail

/-- The induction is on the number of tails that are forced. -/
theorem forceUnpacked_of_lt (rest : Value) (m : Machine) {count : Nat} (lt : count < text.length) :
    ∃ d n, text.toList[count]? = some d ∧
      Completes (forceUnpacked text rest count) m (.ok (m.listCell d count)) n ∧
      m.Awaits count (text.toList.drop (count + 1)) rest n := by
  induction count with
  | zero =>
    refine ⟨c, m.withTail chars rest, by rw [spelled]; rfl, ?_, ?_⟩
    · exact (forceUnpacked_iff spelled).mpr ⟨0, rfl⟩
    · rw [spelled]
      exact Machine.awaits_withTail m chars rest
  | succ count ih =>
    obtain ⟨d, n, -, ended, awaits⟩ := ih (Nat.lt_of_succ_lt lt)
    have inside : count + 1 < text.toList.length := by rwa [String.length_toList]
    rw [List.drop_eq_getElem_cons inside] at awaits
    obtain ⟨n', forces, awaits'⟩ := awaits.force_cons
    exact ⟨_, n', List.getElem?_eq_getElem inside,
      (forceUnpacked_succ_iff spelled ended).mpr forces, awaits'⟩

/-- The last tail has been started before what follows the text is forced. -/
theorem forceUnpacked_length (contained : m.SelfContained) (holds : m.Holds rest)
    (flat : m.ForcesFlat rest) :
    ∃ before, m.Lengthened text.length text.length text.length before ∧
      ∀ outcome n, Completes (forceUnpacked text rest text.length) m outcome n ↔
        ∃ between, Forces before rest outcome between ∧
          n = between.setCell (m.thunks.size + (text.length - 1)) (.ofOutcome outcome) := by
  obtain ⟨count, length⟩ : ∃ count, text.length = count + 1 := ⟨_, length_of_spelled spelled⟩
  obtain ⟨d, last, -, ended, awaits⟩ :=
    forceUnpacked_of_lt spelled rest m (show count < text.length by omega)
  rw [List.drop_eq_nil_of_le (by rw [String.length_toList, length])] at awaits
  have flat' := flat.lengthened contained holds awaits.start (Nat.le_refl _)
  rw [length]
  refine ⟨_, awaits.start, fun outcome n => ?_⟩
  rw [forceUnpacked_succ_iff spelled ended, awaits.force_nil flat', Nat.add_sub_cancel]

end Lazily

/-- Reading the list of a text and a value gives the characters and then what reading the value
gives, with the same error if that fails, and one reading ends if and only if the other does. If
the text is not empty, its list is made as it is walked: when so many tails have been forced,
there is one tail more, up to the length of the text, and the value is forced only by the last.
A machine that a program reaches is self-contained, by `Program.Reached.selfContained`, and holds
what it evaluates, by `Machine.SelfContained.ends`. -/
theorem unpackAppend_reads_text_then_rest (text : String) (rest : Value) (m : Machine)
    (contained : m.SelfContained) (holds : m.Holds rest) (flat : m.ForcesFlat rest) :
    (∀ outcome m', Reads m rest outcome m' → ∃ outcome' n,
      Completes (readUnpacked text rest) m outcome' n ∧ AppendEnd m text outcome m' outcome' n) ∧
    (∀ outcome' n, Completes (readUnpacked text rest) m outcome' n → ∃ outcome m',
      Reads m rest outcome m' ∧ AppendEnd m text outcome m' outcome' n) ∧
    (∀ scope start, ∃ after,
      Completes (fun fuel => run fuel (.eval (.perform .pack [.unpack text]) scope)) start
        (.ok (.str text)) after) ∧
    (text ≠ "" → ∀ count ≤ text.length, ∃ n,
      m.Lengthened (min (count + 1) text.length) (min (count + 1) text.length) count n ∧
      (count < text.length → ∃ c, text.toList[count]? = some c ∧
        Completes (forceUnpacked text rest count) m (.ok (m.listCell c count)) n) ∧
      (count = text.length → ∀ outcome m', Completes (forceUnpacked text rest count) m outcome m' ↔
        ∃ between, Forces n rest outcome between ∧
          m' = between.setCell (m.thunks.size + (count - 1)) (.ofOutcome outcome))) := by
  refine ⟨fun outcome m' reads => reads.readUnpacked contained holds flat, ?_,
    pack_unpack text, ?_⟩
  · intro outcome' n ended
    obtain ⟨outcome, m', reads⟩ := readUnpacked_reads contained holds flat ended
    obtain ⟨_, _, ended', appended⟩ := reads.readUnpacked contained holds flat
    obtain ⟨rfl, rfl⟩ := (rises_readUnpacked text rest).unique ended ended'
    exact ⟨outcome, m', reads, appended⟩
  · intro nonempty count le
    obtain ⟨c, chars, spelled⟩ : ∃ c chars, text.toList = c :: chars :=
      List.exists_cons_of_ne_nil (by simpa using nonempty)
    rcases Nat.lt_or_eq_of_le le with lt | rfl
    · obtain ⟨d, n, found, ended, awaits⟩ := forceUnpacked_of_lt spelled rest m lt
      rw [Nat.min_eq_left lt]
      exact ⟨n, awaits.toLengthened, fun _ => ⟨d, found, ended⟩,
        fun eq => absurd eq (Nat.ne_of_lt lt)⟩
    · obtain ⟨before, lengthened, alike⟩ := forceUnpacked_length spelled contained holds flat
      rw [Nat.min_eq_right (Nat.le_succ _)]
      exact ⟨before, lengthened, fun lt => absurd lt (Nat.lt_irrefl _), fun _ => alike⟩

/-- A program keeps a thunk of the list of one character, and the text comes before it. -/
theorem unpackAppend_reads_text_then_rest_kept :
    ∃ m m' n : Machine, Program.Reached m ∧ m.register? "rest" = some (.thunk 0) ∧
      m.SelfContained ∧ m.Holds (.thunk 0) ∧ m.ForcesFlat (.thunk 0) ∧
      Reads m (.thunk 0) (.ok [.char '!']) m' ∧
      Completes (readUnpacked "hi" (.thunk 0)) m (.ok [.char 'h', .char 'i', .char '!']) n := by
  let m : Machine :=
    { thunks := #[.pending (.eval (.unpack "!") [])]
      registers := [("rest", .thunk 0)]
      counters := { thunksCreated := 1 } }
  have reached : Program.Reached m :=
    @Program.Reached.step 1 {} _ ⟨some "rest", .thunk (.unpack "!")⟩ _ .start rfl
  have kept : m.register? "rest" = some (.thunk 0) := rfl
  have holds : m.Holds (.thunk 0) := reached.selfContained.holds_register kept
  have forces : Forces m (.thunk 0) _ _ := ⟨4, rfl⟩
  have reads : Reads m (.thunk 0) (.ok [.char '!']) _ := ⟨4, rfl⟩
  have flat : m.ForcesFlat (.thunk 0) := by
    intro found m' forces'
    obtain ⟨⟨⟩, -⟩ := (rises_run _).unique forces forces'
    rfl
  obtain ⟨outcome, n, ended, data, first, cells, -, -, -, outcomes, -⟩ :=
    (unpackAppend_reads_text_then_rest "hi" (.thunk 0) m reached.selfContained holds flat).1 _ _
      reads
  obtain @⟨_, _, others, rfl, lists⟩ := outcomes
  obtain _ | ⟨⟨⟩, ⟨⟩⟩ := lists
  exact ⟨m, _, n, reached, kept, reached.selfContained, holds, flat, reads, ended⟩

end CallByNeed
