import CallByNeed.Proofs.Effect
import CallByNeed.Proofs.Renaming

set_option autoImplicit false

/-!
Modification of a mutable variable.

The function is applied to the content of the variable, and what it gives is
evaluated. Only then is the variable written, and only if a constructor with two
fields came out: the first is the new content and the second the answer, both as
they are. In all other cases the machine is as the evaluation left it. The tag
of the constructor is not looked at, so a list cell is taken for a pair.
-/

namespace CallByNeed

namespace Machine

def setMutVar (m : Machine) (ref : Nat) (content : Value) : Machine :=
  { m with mutVars := m.mutVars.setIfInBounds ref content }

@[simp] theorem mutVar_setMutVar_self {m : Machine} {ref : Nat} (present : ref < m.mutVars.size)
    (content : Value) : (m.setMutVar ref content).mutVar ref = content := by
  simp [setMutVar, mutVar, Array.getD_eq_getD_getElem?, present]

end Machine

/-- Variables are never taken away. -/
theorem Effect.mutVars_size_le {m m' : Machine} (effect : Effect m m') :
    m.mutVars.size ≤ m'.mutVars.size := by
  induction effect with
  | trans _ _ first second => exact Nat.le_trans first second
  | newMutVar => simp
  | writeMutVar => simp
  | evaluate _ _ _ _ inner => exact inner
  | _ => exact Nat.le_refl _

/-- A constructor with exactly two fields, whatever its tag. -/
inductive Value.HasTwoFields : Value → Prop where
  | data (id : Nat) (tag : UInt32) (first second : Value) :
      HasTwoFields (.data id tag [first, second])

namespace Eval

variable {m m' : Machine} {ref : Nat}

/-- What a function makes of the content of a variable, evaluated. -/
def update (run : Runner) (f content : Value) : Eval Value := do
  run (.force (← run (.apply f [content])))

/-- Takes the first field for the new content and the second for the answer. -/
def commit (ref : Nat) : Value → Eval Value
  | .data _ _ [content, answer] => do
    writeMutVar ref content
    return answer
  | other => throw (.wrongType "atomicModifyMutVar" "pair" other.typeName)

theorem ends_modifyMutVar {run : Runner} {f : Value} {outcome : Except Error Value} :
    (modifyMutVar run ref f).Ends m outcome m' ↔
      (update run f (m.mutVar ref) >>= commit ref).Ends m outcome m' := by
  rw [update, bind_assoc]
  rfl

theorem ends_commit_data {id : Nat} {tag : UInt32} {content answer : Value}
    {outcome : Except Error Value} :
    (commit ref (.data id tag [content, answer])).Ends m outcome m' ↔
      outcome = .ok answer ∧ m' = m.setMutVar ref content :=
  ends_iff_of_run rfl

theorem ends_commit_other {value : Value} (other : ¬ value.HasTwoFields)
    {outcome : Except Error Value} :
    (commit ref value).Ends m outcome m' ↔
      outcome = .error (.wrongType "atomicModifyMutVar" "pair" value.typeName) ∧ m' = m := by
  fun_cases commit ref value with
  | case1 id tag content answer => exact absurd (.data id tag content answer) other
  | case2 => exact ends_throw

theorem ends_commit_ok {value answer : Value} :
    (commit ref value).Ends m (.ok answer) m' ↔
      ∃ id tag content, value = .data id tag [content, answer] ∧ m' = m.setMutVar ref content := by
  constructor
  · intro ended
    by_cases two : value.HasTwoFields
    · obtain ⟨id, tag, content, _⟩ := two
      obtain ⟨⟨⟩, rfl⟩ := ends_commit_data.mp ended
      exact ⟨id, tag, content, rfl, rfl⟩
    · cases ((ends_commit_other two).mp ended).1
  · rintro ⟨id, tag, content, rfl, rfl⟩
    exact ends_commit_data.mpr ⟨rfl, rfl⟩

theorem ends_commit_error {value : Value} {e : Error} :
    (commit ref value).Ends m (.error e) m' ↔ ¬ value.HasTwoFields ∧
      e = .wrongType "atomicModifyMutVar" "pair" value.typeName ∧ m' = m := by
  constructor
  · intro ended
    by_cases two : value.HasTwoFields
    · obtain ⟨id, tag, content, answer⟩ := two
      cases (ends_commit_data.mp ended).1
    · obtain ⟨⟨⟩, rfl⟩ := (ends_commit_other two).mp ended
      exact ⟨two, rfl, rfl⟩
  · rintro ⟨other, rfl, rfl⟩
    exact (ends_commit_other other).mpr ⟨rfl, rfl⟩

end Eval

/-- The function is applied to the content of the variable and the result is forced. -/
abbrev Updates (m : Machine) (ref : Nat) (f : Value) : Except Error Value → Machine → Prop :=
  Completes (fun fuel => Eval.update (run fuel) f (m.mutVar ref)) m

abbrev Modifies (m : Machine) (ref : Nat) (f : Value) : Except Error Value → Machine → Prop :=
  Completes (fun fuel => Eval.modifyMutVar (run fuel) ref f) m

section

variable {m m' : Machine} {ref : Nat} {f : Value}

theorem rises_update (f content : Value) : Rises fun fuel => Eval.update (run fuel) f content :=
  (rises_run _).bind fun result => rises_run (.force result)

theorem Updates.effect {outcome : Except Error Value} (h : Updates m ref f outcome m') :
    Effect m m' := by
  obtain ⟨fuel, ended⟩ := h
  exact (run_effects fuel _).bind (fun result => run_effects fuel (.force result)) _ _ _ ended

theorem modifies_iff {outcome : Except Error Value} :
    Modifies m ref f outcome m' ↔
      (∃ e, Updates m ref f (.error e) m' ∧ outcome = .error e) ∨
      ∃ value between, Updates m ref f (.ok value) between ∧
        (Eval.commit ref value).Ends between outcome m' := by
  constructor
  · rintro ⟨fuel, ended⟩
    rcases Eval.ends_bind.mp (Eval.ends_modifyMutVar.mp ended) with
      ⟨e, failed, rfl⟩ | ⟨value, between, done, rest⟩
    · exact .inl ⟨e, ⟨fuel, failed⟩, rfl⟩
    · exact .inr ⟨value, between, ⟨fuel, done⟩, rest⟩
  · rintro (⟨e, ⟨fuel, failed⟩, rfl⟩ | ⟨value, between, ⟨fuel, done⟩, rest⟩)
    · exact ⟨fuel, Eval.ends_modifyMutVar.mpr failed.bind_error⟩
    · exact ⟨fuel, Eval.ends_modifyMutVar.mpr (done.bind rest)⟩

theorem modifies_ok_iff {answer : Value} :
    Modifies m ref f (.ok answer) m' ↔ ∃ id tag content between,
      Updates m ref f (.ok (.data id tag [content, answer])) between ∧
        m' = between.setMutVar ref content := by
  simp only [modifies_iff, Eval.ends_commit_ok]
  constructor
  · rintro (⟨e, -, impossible⟩ | ⟨value, between, updated, id, tag, content, rfl, rfl⟩)
    · cases impossible
    · exact ⟨id, tag, content, between, updated, rfl⟩
  · rintro ⟨id, tag, content, between, updated, rfl⟩
    exact .inr ⟨_, between, updated, id, tag, content, rfl, rfl⟩

theorem modifies_error_iff {e : Error} :
    Modifies m ref f (.error e) m' ↔ Updates m ref f (.error e) m' ∨
      ∃ value, Updates m ref f (.ok value) m' ∧ ¬ value.HasTwoFields ∧
        e = .wrongType "atomicModifyMutVar" "pair" value.typeName := by
  simp only [modifies_iff, Eval.ends_commit_error]
  constructor
  · rintro (⟨e, failed, ⟨⟩⟩ | ⟨value, between, updated, other, rfl, rfl⟩)
    · exact .inl failed
    · exact .inr ⟨value, updated, other, rfl⟩
  · rintro (failed | ⟨value, updated, other, rfl⟩)
    · exact .inl ⟨e, failed, rfl⟩
    · exact .inr ⟨value, m', updated, other, rfl, rfl⟩

end

/-- A modification succeeds exactly if the function gives a constructor with two fields; the
first is then stored and the second is the answer. It fails exactly if the evaluation fails or
gives anything else, and leaves the machine to it. So where the evaluation itself spares the
variable, a modification that fails does so too. -/
theorem modification_commits_two_fields {m : Machine} {ref : Nat} (f : Value)
    (present : ref < m.mutVars.size) :
    (∀ answer m', Modifies m ref f (.ok answer) m' ↔ ∃ id tag content between,
      Updates m ref f (.ok (.data id tag [content, answer])) between ∧
        m' = between.setMutVar ref content ∧ m'.mutVar ref = content) ∧
    (∀ e m', Modifies m ref f (.error e) m' ↔ Updates m ref f (.error e) m' ∨
      ∃ value, Updates m ref f (.ok value) m' ∧ ¬ value.HasTwoFields ∧
        e = .wrongType "atomicModifyMutVar" "pair" value.typeName) ∧
    ((∀ outcome m', Updates m ref f outcome m' → m'.mutVar ref = m.mutVar ref) →
      ∀ e m', Modifies m ref f (.error e) m' → m'.mutVar ref = m.mutVar ref) := by
  refine ⟨fun answer m' => ?_, fun e m' => modifies_error_iff, ?_⟩
  · rw [modifies_ok_iff]
    constructor
    · rintro ⟨id, tag, content, between, updated, rfl⟩
      have present' : ref < between.mutVars.size :=
        Nat.lt_of_lt_of_le present updated.effect.mutVars_size_le
      exact ⟨id, tag, content, between, updated, rfl, Machine.mutVar_setMutVar_self present' content⟩
    · rintro ⟨id, tag, content, between, updated, rfl, -⟩
      exact ⟨id, tag, content, between, updated, rfl⟩
  · intro spared e m' failed
    rcases modifies_error_iff.mp failed with failed | ⟨value, updated, -⟩
    · exact spared _ _ failed
    · exact spared _ _ updated

/-- A pair of a new content and the old one, and no pair at all. -/
theorem modification_commits_two_fields_swap :
    let m : Machine := { mutVars := #[.unit] }
    let swap : Value :=
      .closure 0 ⟨1, none, .perform (.data 0) [.lit (.scalar (.bool true)), .arg 0 0]⟩ [] 1 []
    0 < m.mutVars.size ∧
    (∃ m', Modifies m 0 swap (.ok .unit) m' ∧ m'.mutVar 0 = .bool true) ∧
    Modifies m 0 (.bool true) (.error (.wrongType "atomicModifyMutVar" "pair" "Bool")) m ∧
    ∀ e m', Modifies m 0 (.bool true) (.error e) m' → m'.mutVar 0 = .unit := by
  intro m swap
  have present : 0 < m.mutVars.size := by decide
  obtain ⟨succeeds, -⟩ := modification_commits_two_fields swap present
  obtain ⟨-, fails, keeps⟩ := modification_commits_two_fields (.bool true) present
  have updated : ∃ between, Updates m 0 swap (.ok (.data 0 0 [.bool true, .unit])) between :=
    ⟨_, 5, rfl⟩
  have swallowed : Updates m 0 (.bool true) (.ok (.bool true)) m := ⟨2, rfl⟩
  refine ⟨present, ?_, ?_, keeps ?_⟩
  · obtain ⟨between, updated⟩ := updated
    have holds := Machine.mutVar_setMutVar_self
      (Nat.lt_of_lt_of_le present updated.effect.mutVars_size_le) (.bool true)
    exact ⟨_, (succeeds _ _).mpr ⟨0, 0, .bool true, between, updated, rfl, holds⟩, holds⟩
  · refine (fails _ _).mpr (.inr ⟨.bool true, swallowed, ?_, rfl⟩)
    rintro ⟨⟩
  · intro outcome m' updated'
    rw [((rises_update (.bool true) _).unique swallowed updated').2]

/-- A list cell has two fields, so its head becomes the new content. -/
theorem modification_takes_list_cell :
    let code : Code := ⟨1, none, .cons (.lit (.scalar (.bool true))) .nil⟩
    let made : Expr := .seq [.perform .newMutVar [.lit (.scalar .unit)], .lam 1 none code.body]
    ∃ m between m' list cell answer, (run 3 (.eval made [])).Ends {} (.ok list) m ∧
      Updates m 0 list (.ok cell) between ∧ cell.tag? = some 1 ∧
      m.mutVar 0 = .unit ∧ between.mutVar 0 = .unit ∧
      Modifies m 0 list (.ok answer) m' ∧ m'.mutVar 0 = .bool true := by
  intro code made
  exact ⟨_, _, _, _, _, _, rfl, ⟨6, rfl⟩, rfl, rfl, rfl, ⟨6, rfl⟩, rfl⟩

end CallByNeed
