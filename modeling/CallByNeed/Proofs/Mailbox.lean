import CallByNeed.Proofs.Memo

set_option autoImplicit false

/-!
Mailboxes lose nothing.

A mailbox holds one value at most. Taking is refused while it is empty and
storing while it is full, and a refusal changes nothing. What has been stored
is what has been taken and then what the mailbox holds, so values come out
once each and in the order in which they went in.
-/

namespace CallByNeed

namespace Machine

variable {m : Machine} {ref : Nat}

@[simp] theorem size_setMVar (m : Machine) (ref : Nat) (content : Option Value) :
    (m.setMVar ref content).mVars.size = m.mVars.size := by
  simp [setMVar]

@[simp] theorem mVar_setMVar_self (present : ref < m.mVars.size) (content : Option Value) :
    (m.setMVar ref content).mVar ref = content := by
  simp [setMVar, mVar, Array.getD_eq_getD_getElem?, present]

/-- To empty a mailbox that is empty changes nothing. -/
theorem setMVar_of_empty (empty : m.mVar ref = none) : m.setMVar ref none = m := by
  have same : m.mVars.setIfInBounds ref none = m.mVars := by
    refine Array.ext (by simp) fun i _ inside => ?_
    by_cases here : ref = i
    · subst here
      simpa [mVar, Array.getD_eq_getD_getElem?, inside] using empty.symm
    · rw [Array.getElem_setIfInBounds_ne inside here]
  rw [setMVar, same]

end Machine

/-- Mailboxes are never taken away. -/
theorem Effect.mVars_size_le {m m' : Machine} (effect : Effect m m') :
    m.mVars.size ≤ m'.mVars.size := by
  induction effect with
  | trans _ _ first second => exact Nat.le_trans first second
  | newMVar => simp
  | setMVar => simp
  | evaluate _ _ _ _ inner => exact inner
  | _ => exact Nat.le_refl _

theorem Machine.Reaches.mVars_size_le {m m' : Machine} (reached : m.Reaches m') :
    m.mVars.size ≤ m'.mVars.size := by
  induction reached with
  | refl => exact Nat.le_refl _
  | operation _ ended before =>
    exact Nat.le_trans before (run_effects _ _ _ _ _ ended).mVars_size_le
  | keep _ _ _ before => exact before

namespace Mailbox

open Eval

/-- How the operations on a mailbox end, by what it holds. -/
structure Served (ref : Nat) (m : Machine) : Prop where
  take : ∀ outcome m', (take ref).Ends m outcome m' ↔
    (∃ value, m.mVar ref = some value ∧ outcome = .ok value ∧ m' = m.setMVar ref none) ∨
      m.mVar ref = none ∧ outcome = .error .emptyMVar ∧ m' = m
  tryTake : ∀ outcome m', (tryTake ref).Ends m outcome m' ↔
    (∃ value, m.mVar ref = some value ∧ outcome = .ok (some value) ∧ m' = m.setMVar ref none) ∨
      m.mVar ref = none ∧ outcome = .ok none ∧ m' = m
  put : ∀ value outcome m', (put ref value).Ends m outcome m' ↔
    m.mVar ref = none ∧ outcome = .ok () ∧ m' = m.setMVar ref (some value) ∨
      ∃ held, m.mVar ref = some held ∧ outcome = .error .fullMVar ∧ m' = m
  tryPut : ∀ value outcome m', (tryPut ref value).Ends m outcome m' ↔
    m.mVar ref = none ∧ outcome = .ok true ∧ m' = m.setMVar ref (some value) ∨
      ∃ held, m.mVar ref = some held ∧ outcome = .ok false ∧ m' = m

theorem ends_tryTake_iff (ref : Nat) (m : Machine) (outcome : Except Error (Option Value))
    (m' : Machine) : (Eval.tryTake ref).Ends m outcome m' ↔
      (∃ value, m.mVar ref = some value ∧ outcome = .ok (some value) ∧ m' = m.setMVar ref none) ∨
        m.mVar ref = none ∧ outcome = .ok none ∧ m' = m := by
  rw [Eval.tryTake, ends_modifyGet]
  cases holds : m.mVar ref with
  | none => simp [Machine.setMVar_of_empty holds]
  | some value => simp

theorem ends_tryPut_iff (ref : Nat) (m : Machine) (value : Value) (outcome : Except Error Bool)
    (m' : Machine) : (Eval.tryPut ref value).Ends m outcome m' ↔
      m.mVar ref = none ∧ outcome = .ok true ∧ m' = m.setMVar ref (some value) ∨
        ∃ held, m.mVar ref = some held ∧ outcome = .ok false ∧ m' = m := by
  rw [Eval.tryPut, ends_modifyGet]
  cases holds : m.mVar ref <;> simp

/-- Every mailbox is served, at any time. -/
theorem served (ref : Nat) (m : Machine) : Served ref m where
  tryTake := ends_tryTake_iff ref m
  tryPut := ends_tryPut_iff ref m
  take outcome m' := by
    rw [Eval.take, ends_bind]
    simp only [ends_tryTake_iff]
    cases holds : m.mVar ref <;> simp [and_assoc]
  put value outcome m' := by
    rw [Eval.put, ends_bind]
    simp only [ends_tryPut_iff]
    cases holds : m.mVar ref <;> simp

/-! Histories -/

/-- What happens next to a mailbox: the values that are stored and that are taken by it. In
between, a program may do whatever leaves the mailbox as it is. -/
inductive Turn (ref : Nat) (m : Machine) : List Value → List Value → Machine → Prop
  | take {value : Value} {m' : Machine} :
      (take ref).Ends m (.ok value) m' → Turn ref m [] [value] m'
  | takeFails {e : Error} {m' : Machine} : (take ref).Ends m (.error e) m' → Turn ref m [] [] m'
  | tryTake {content : Option Value} {m' : Machine} :
      (tryTake ref).Ends m (.ok content) m' → Turn ref m [] content.toList m'
  | put {value : Value} {m' : Machine} :
      (put ref value).Ends m (.ok ()) m' → Turn ref m [value] [] m'
  | putFails {value : Value} {e : Error} {m' : Machine} :
      (put ref value).Ends m (.error e) m' → Turn ref m [] [] m'
  | tryPut {value : Value} {stored : Bool} {m' : Machine} :
      (tryPut ref value).Ends m (.ok stored) m' →
        Turn ref m (if stored then [value] else []) [] m'
  | meanwhile {m' : Machine} : m.Reaches m' → m'.mVar ref = m.mVar ref → Turn ref m [] [] m'

/-- Turns in any order, with the values stored and taken so far. -/
inductive History (ref : Nat) (m : Machine) : List Value → List Value → Machine → Prop
  | start : History ref m [] [] m
  | turn {stored taken stored' taken' : List Value} {m₁ m₂ : Machine} :
      History ref m stored taken m₁ → Turn ref m₁ stored' taken' m₂ →
        History ref m (stored ++ stored') (taken ++ taken') m₂

variable {ref : Nat} {m m' : Machine} {stored taken : List Value}

/-- A turn conserves what is stored, and the mailbox stays. -/
theorem Turn.conserves (turn : Turn ref m stored taken m') (present : ref < m.mVars.size) :
    (m.mVar ref).toList ++ stored = taken ++ (m'.mVar ref).toList ∧ ref < m'.mVars.size := by
  cases turn with
  | take ended =>
    rcases ((served ref m).take _ _).mp ended with ⟨value, holds, ⟨⟩, rfl⟩ | ⟨-, ⟨⟩, -⟩
    simp [holds, present]
  | takeFails ended =>
    rcases ((served ref m).take _ _).mp ended with ⟨_, -, ⟨⟩, -⟩ | ⟨holds, -, rfl⟩
    simp [holds, present]
  | tryTake ended =>
    rcases ((served ref m).tryTake _ _).mp ended with ⟨value, holds, ⟨⟩, rfl⟩ | ⟨holds, ⟨⟩, rfl⟩
    · simp [holds, present]
    · simp [holds, present]
  | put ended =>
    rcases ((served ref m).put _ _ _).mp ended with ⟨holds, -, rfl⟩ | ⟨_, -, ⟨⟩, -⟩
    simp [holds, present]
  | putFails ended =>
    rcases ((served ref m).put _ _ _).mp ended with ⟨-, ⟨⟩, -⟩ | ⟨held, holds, -, rfl⟩
    simp [present]
  | tryPut ended =>
    rcases ((served ref m).tryPut _ _ _).mp ended with ⟨holds, ⟨⟩, rfl⟩ | ⟨held, holds, ⟨⟩, rfl⟩
    · simp [holds, present]
    · simp [present]
  | meanwhile reached same =>
    refine ⟨by simp [same], ?_⟩
    exact Nat.lt_of_lt_of_le present reached.mVars_size_le

/-- Over a history, what was held and stored is what was taken and is held. -/
theorem History.conserves (history : History ref m stored taken m')
    (present : ref < m.mVars.size) :
    (m.mVar ref).toList ++ stored = taken ++ (m'.mVar ref).toList ∧ ref < m'.mVars.size := by
  induction history with
  | start => simp [present]
  | turn _ turn before =>
    obtain ⟨conserved, still⟩ := before
    obtain ⟨conserved', still'⟩ := turn.conserves still
    refine ⟨?_, still'⟩
    rw [← List.append_assoc, conserved, List.append_assoc, conserved', List.append_assoc]

/-- A new mailbox is there, and holds what it was made with. -/
theorem holds_of_newMVar {m₀ : Machine} {content : Option Value}
    (made : (newMVar content).Ends m₀ (.ok (.mVar ref)) m) :
    m.mVar ref = content ∧ ref < m.mVars.size := by
  rw [newMVar, ends_modifyGet] at made
  obtain ⟨⟨⟩, rfl⟩ := made
  simp [Machine.mVar, Array.getD_eq_getD_getElem?]

end Mailbox

open Mailbox

/-- A mailbox neither loses nor repeats nor reorders. Whatever is done with it, in any order, the
values taken begin those stored, and the only one that may be missing is the one it holds.
Taking fails exactly when it is empty and storing exactly when it is full, and then nothing
changes. -/
theorem mailbox_conserves {m₀ m m' : Machine} {ref : Nat} {content : Option Value}
    {stored taken : List Value} (made : (Eval.newMVar content).Ends m₀ (.ok (.mVar ref)) m)
    (history : History ref m stored taken m') :
    taken <+: content.toList ++ stored ∧
      (m'.mVar ref = none → taken = content.toList ++ stored) ∧
      (∀ last, m'.mVar ref = some last → taken ++ [last] = content.toList ++ stored) ∧
      Served ref m' := by
  obtain ⟨held, present⟩ := holds_of_newMVar made
  have conserved := (history.conserves present).1
  rw [held] at conserved
  refine ⟨⟨_, conserved.symm⟩, fun empty => ?_, fun last full => ?_, served ref m'⟩
  · simpa [empty] using conserved.symm
  · simpa [full] using conserved.symm

/-- Made with `1`, refused `3`, emptied and filled with `2`: the `2` is still to be taken. -/
theorem mailbox_conserves_refilled :
    let value n := Value.scalar (.int n)
    ∃ m m', (Eval.newMVar (some (value 1))).Ends {} (.ok (.mVar 0)) m ∧
      History 0 m [value 2] [value 1] m' ∧ m'.mVar 0 = some (value 2) ∧
      [value 1] ++ [value 2] = (some (value 1)).toList ++ [value 2] ∧ Served 0 m' := by
  intro value
  let full : Machine := { mVars := #[some (value 1)] }
  let empty := full.setMVar 0 none
  let refilled := empty.setMVar 0 (some (value 2))
  have made : (Eval.newMVar (some (value 1))).Ends {} (.ok (.mVar 0)) full := rfl
  have refused : (Eval.put 0 (value 3)).Ends full (.error .fullMVar) full := rfl
  have taken : (Eval.take 0).Ends full (.ok (value 1)) empty := rfl
  have stored : (Eval.tryPut 0 (value 2)).Ends empty (.ok true) refilled := rfl
  have history : History 0 full [value 2] [value 1] refilled :=
    ((History.start.turn (.putFails refused)).turn (.take taken)).turn (.tryPut stored)
  have conserved := mailbox_conserves made history
  exact ⟨full, refilled, made, history, rfl, conserved.2.2.1 _ rfl, conserved.2.2.2⟩

end CallByNeed
