import CallByNeed.Proofs.Effect
import CallByNeed.Proofs.Renaming
import Mathlib.Order.Basic

set_option autoImplicit false

/-!
Cells that lie beside a machine.

A machine that a program has come to holds no identity and no reference that it
has not given out. Other cells may therefore be put behind its own without any
of its values meeting them. Runs then go on as they would have gone, but the
references and identities given out later are moved.
-/

namespace CallByNeed

open Correspondence

/-! What has been given out -/

/-- Identities and references that have been given out correspond to themselves. -/
def Alignment.given : Alignment where
  Stage := Nat × Nat × Nat
  stage data closures thunks := (data, closures, thunks)
  ids k :=
    { data := fun i j => i = j ∧ i < k.1
      closure := fun i j => i = j ∧ i < k.2.1
      held := fun i => i < k.2.2 }
  counters _ _ := True
  stage_le data closures thunks := Prod.mk_le_mk.mpr ⟨data, Prod.mk_le_mk.mpr ⟨closures, thunks⟩⟩
  mono le :=
    { data := fun h => ⟨h.1, h.2.trans_le le.1⟩
      closure := fun h => ⟨h.1, h.2.trans_le le.2.1⟩
      thunk := rfl
      held := fun below => below.trans_le le.2.2
      past := id }
  oneToOne _ := ⟨fun h h' => eq_iff_eq h.1 h'.1, fun h h' => eq_iff_eq h.1 h'.1, eq_iff_eq⟩
  held := id
  count _ _ := trivial

namespace Machine

/-- All in the value has been given out by this machine. -/
def Holds (m : Machine) (value : Value) : Prop :=
  Alignment.given.Values (Alignment.given.reached m) value value

/-- All in the machine has been given out by it. -/
def SelfContained (m : Machine) : Prop :=
  (Alignment.given.ids (Alignment.given.reached m)).Contents m m

theorem selfContained_empty : SelfContained {} := .empty ⟨rfl, rfl⟩

theorem SelfContained.machines {m : Machine} (contained : m.SelfContained) :
    Alignment.given.Machines m m :=
  ⟨contained, trivial, fun _ => ⟨rfl, Nat.lt_succ_self _⟩, fun _ => ⟨rfl, Nat.lt_succ_self _⟩,
    fun _ => rfl⟩

theorem SelfContained.holds_register {m : Machine} (contained : m.SelfContained) {name : String}
    {value : Value} (found : m.register? name = some value) : m.Holds value := by
  have values := contained.register name
  rw [found] at values
  cases values with
  | some values => exact values

/-- A task that is given nothing else gives nothing else. -/
theorem SelfContained.ends {m m' : Machine} {fuel : Nat} {task : Task}
    {outcome : Except Error Value} (contained : m.SelfContained)
    (tasks : (Alignment.given.ids (Alignment.given.reached m)).Tasks task task)
    (ended : (run fuel task).Ends m outcome m') :
    m.nextData ≤ m'.nextData ∧ m.thunks.size ≤ m'.thunks.size ∧ m'.SelfContained ∧
      ∀ value, outcome = .ok value → m'.Holds value := by
  have keeps := run_simulates .given (Nat.le_refl fuel) tasks
  obtain ⟨grown, machines, known⟩ := keeps.self contained.machines ended
  exact ⟨grown.1, grown.2.2, machines.contents, known⟩

end Machine

theorem Program.Reached.selfContained {m : Machine} (reached : Program.Reached m) :
    m.SelfContained :=
  (reached.self Machine.selfContained_empty.machines).contents

/-! Cells put behind -/

namespace Machine

/-- The machine `n` is `m` with some identities of data cells passed over and with some thunks
made, the first of which have been started one after the other. -/
structure Lengthened (m : Machine) (data cells started : Nat) (n : Machine) : Prop where
  size : n.thunks.size = m.thunks.size + cells
  cell : ∀ ref < m.thunks.size, n.cell ref = m.cell ref
  mutVars : n.mutVars = m.mutVars
  mVars : n.mVars = m.mVars
  nextData : n.nextData = m.nextData + data
  nextClosure : n.nextClosure = m.nextClosure
  registers : n.registers = m.registers
  counters : n.counters = { m.counters with
    thunksCreated := m.counters.thunksCreated + cells
    thunksForced := m.counters.thunksForced + started }
  journal : n.journal = (List.range' m.thunks.size started).reverse.map .start ++ m.journal

theorem Lengthened.refl (m : Machine) : m.Lengthened 0 0 0 m :=
  ⟨rfl, fun _ _ => rfl, rfl, rfl, rfl, rfl, rfl, rfl, rfl⟩

theorem cell_of_size_le {m : Machine} {ref : Nat} (beyond : m.thunks.size ≤ ref) :
    m.cell ref = .forcing := by
  simp [cell, Array.getD_eq_getD_getElem?, beyond]

/-- Two machines of which both are `m` lengthened hold the same, if the correspondence leaves
alone what `m` has given out. -/
theorem Lengthened.contents {m p q : Machine} {data cells started data' cells' started' : Nat}
    (left : m.Lengthened data cells started p) (right : m.Lengthened data' cells' started' q)
    (contained : m.SelfContained) {c : Correspondence}
    (fixed : (Alignment.given.ids (Alignment.given.reached m)).Embeds c)
    (places : ∀ {i j}, c.thunk i j →
      i = j ∧ i < m.thunks.size ∨ p.thunks.size ≤ i ∧ q.thunks.size ≤ j)
    (past : c.past p.journal q.journal) : c.Contents p q where
  present h := by
    have size := left.size
    have size' := right.size
    obtain ⟨rfl, inside⟩ | ⟨beyond, beyond'⟩ := places h <;> omega
  cell h := by
    obtain ⟨rfl, inside⟩ | ⟨beyond, beyond'⟩ := places h
    · rw [left.cell _ inside, right.cell _ inside]
      exact (contained.cell rfl).mono fixed
    · rw [cell_of_size_le beyond, cell_of_size_le beyond']
      exact .forcing
  mutVars_size := by rw [left.mutVars, right.mutVars]
  mutVar ref := by
    rw [mutVar, mutVar, left.mutVars, right.mutVars]
    exact (contained.mutVar ref).mono fixed
  mVars_size := by rw [left.mVars, right.mVars]
  mVar ref := by
    rw [mVar, mVar, left.mVars, right.mVars]
    exact rel_mono fixed (contained.mVar ref)
  registers := by
    rw [left.registers, right.registers]
    exact contained.registers.imp fun _ _ same => ⟨same.1, same.2.mono fixed⟩
  journal := .past past

end Machine

namespace Alignment

variable (m : Machine)

theorem given_embeds {c : Correspondence} (data : ∀ i < m.nextData, c.data i i)
    (closures : ∀ i < m.nextClosure, c.closure i i)
    (thunks : ∀ i < m.thunks.size, c.thunk i i ∧ c.held i) :
    (given.ids (given.reached m)).Embeds c where
  data := by
    rintro i _ ⟨rfl, below⟩
    exact data i below
  closure := by
    rintro i _ ⟨rfl, below⟩
    exact closures i below
  thunk := by
    rintro i _ rfl below
    exact thunks i below

variable (passed distance : Nat)

theorem given_embeds_spread : (given.ids (given.reached m)).Embeds
    ((spread m.nextData passed m.thunks.size distance).ids ()) :=
  given_embeds m (fun _ => moved_self) (fun _ _ => rfl) fun _ below => ⟨moved_self below, trivial⟩

theorem given_embeds_gather : (given.ids (given.reached m)).Embeds
    ((gather m.nextData passed m.thunks.size distance).ids ()) :=
  given_embeds m (fun _ => moved_self) (fun _ _ => rfl) fun _ below => ⟨moved_self below, trivial⟩

end Alignment

namespace Machine.Lengthened

variable {m n : Machine} {data cells started : Nat} (h : m.Lengthened data cells started n)
include h

theorem passed (le : started ≤ cells) :
    Alignment.Passed m.thunks.size cells m.journal n.journal := by
  refine ⟨(List.range' m.thunks.size started).reverse, ?_, h.journal⟩
  intro ref member
  simp only [List.mem_reverse, List.mem_range'_1] at member
  omega

theorem spread (contained : m.SelfContained) (le : started ≤ cells) :
    (Alignment.spread m.nextData data m.thunks.size cells).Machines m n where
  contents := by
    refine (Lengthened.refl m).contents h contained ?_ ?_ (h.passed le)
    · exact Alignment.given_embeds_spread m data cells
    · intro i j places
      have : Moved m.thunks.size cells i j := places
      grind [Moved, h.size]
  counters := trivial
  nextData k := by
    show Moved _ _ _ _
    grind [Moved, h.nextData]
  nextClosure k := by
    show m.nextClosure + k = n.nextClosure + k
    rw [h.nextClosure]
  nextThunk k := by
    show Moved _ _ _ _
    grind [Moved, h.size]

theorem gather (contained : m.SelfContained) (le : started ≤ cells) :
    (Alignment.gather m.nextData data m.thunks.size cells).Machines n m where
  contents := by
    refine h.contents (Lengthened.refl m) contained ?_ ?_ (h.passed le)
    · exact Alignment.given_embeds_gather m data cells
    · intro i j places
      have : Moved m.thunks.size cells j i := places
      grind [Moved, h.size]
  counters := trivial
  nextData k := by
    show Moved _ _ _ _
    grind [Moved, h.nextData]
  nextClosure k := by
    show n.nextClosure + k = m.nextClosure + k
    rw [h.nextClosure]
  nextThunk k := by
    show Moved _ _ _ _
    grind [Moved, h.size]

end Machine.Lengthened

end CallByNeed
