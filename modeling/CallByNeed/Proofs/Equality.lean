import CallByNeed.Proofs.CanonicalForm
import CallByNeed.Proofs.Heap

set_option autoImplicit false

/-!
The laws of equality.

Equality of values takes a short cut: a data cell is equal to itself, whatever
it holds, though what is not a number is equal to nothing. In one heap the short
cut does no harm. Cells of one identity have the same tag and fields there, so a
comparison with one of them is a comparison with the other.
-/

namespace CallByNeed

theorem forall₂_trans {α : Type} {R : α → α → Prop} {as bs cs : List α}
    (each : ∀ a ∈ as, ∀ b ∈ bs, ∀ c ∈ cs, R a b → R b c → R a c)
    (first : List.Forall₂ R as bs) (second : List.Forall₂ R bs cs) : List.Forall₂ R as cs := by
  induction first generalizing cs with
  | nil => exact second
  | cons head _ ih =>
    cases second with
    | cons head' tail' =>
      refine .cons (each _ (by simp) _ (by simp) _ (by simp) head head') (ih ?_ tail')
      exact fun a ha b hb c hc =>
        each a (by simp [ha]) b (by simp [hb]) c (by simp [hc])

/-! Scalars -/

theorem Floating.equal_iff {f : Format} (x y : Floating f) :
    x.equal y = true ↔ x.position ≠ none ∧ x.position = y.position := by
  unfold equal
  cases x.position <;> cases y.position <;> simp

namespace Scalar

/-- What the equality of scalars compares. -/
def meaning : Scalar → Option Int ⊕ Int ⊕ Scalar
  | .double x => .inl x.position
  | .integer n => .inr (.inl n.toInt)
  | s => .inr (.inr s)

theorem equal_iff (s t : Scalar) :
    s.equal t = true ↔ s.meaning ≠ .inl none ∧ s.meaning = t.meaning := by
  cases s <;> cases t <;> simp [equal, meaning, Floating.equal_iff]

theorem equal_symm {s t : Scalar} (h : s.equal t = true) : t.equal s = true := by
  rw [equal_iff] at h ⊢
  exact ⟨h.2 ▸ h.1, h.2.symm⟩

theorem equal_trans {s t u : Scalar} (first : s.equal t = true) (second : t.equal u = true) :
    s.equal u = true := by
  rw [equal_iff] at first second ⊢
  exact ⟨first.1, first.2.trans second.2⟩

end Scalar

namespace Value

/-- A double that is not a number, by itself. -/
def isNaN : Value → Bool
  | .scalar (.double (.nan ..)) => true
  | _ => false

/-! Data cells -/

@[simp] theorem equalAll_iff (as bs : List Value) :
    equalAll as bs = true ↔ List.Forall₂ (fun a b => a.equal b = true) as bs := by
  induction as generalizing bs with
  | nil => cases bs <;> simp [equalAll]
  | cons a as ih => cases bs <;> simp [equalAll, ih]

theorem equal_data_iff (i j : Nat) (s t : UInt32) (as bs : List Value) :
    (data i s as).equal (data j t bs) = true ↔
      i = j ∨ s = t ∧ List.Forall₂ (fun a b => a.equal b = true) as bs := by
  simp [equal]

/-! The laws -/

theorem equal_symm {a b : Value} (h : a.equal b = true) : b.equal a = true := by
  induction a using Value.nested_induction generalizing b with
  | scalar s =>
    cases b with
    | scalar t => exact Scalar.equal_symm h
    | _ => cases h
  | data i s as ih =>
    cases b with
    | data j t bs =>
      rw [equal_data_iff] at h ⊢
      refine h.imp Eq.symm fun ⟨tags, fields⟩ => ⟨tags.symm, ?_⟩
      exact .flip (forall₂_imp_of_mem fields fun v member _ => ih v member)
    | _ => cases h
  | _ => cases b <;> simp_all [equal]

/-- A step between two cells of one identity goes from a cell to itself, so the short cut adds
nothing to a chain. -/
theorem equal_trans {heap : Heap} {a b c : Value} (ha : a.In heap) (hb : b.In heap)
    (hc : c.In heap) (first : a.equal b = true) (second : b.equal c = true) :
    a.equal c = true := by
  induction a using Value.nested_induction generalizing b c with
  | scalar s =>
    cases b with
    | scalar t =>
      cases c with
      | scalar u => exact Scalar.equal_trans first second
      | _ => cases second
    | _ => cases first
  | data i s as ih =>
    cases b with
    | data j t bs =>
      cases c with
      | data k u cs =>
        rw [equal_data_iff] at first second ⊢
        rcases first with rfl | ⟨rfl, first⟩
        · obtain ⟨rfl, rfl⟩ := ha.data_inj hb
          exact second
        rcases second with rfl | ⟨rfl, second⟩
        · obtain ⟨rfl, rfl⟩ := hb.data_inj hc
          exact .inr ⟨rfl, first⟩
        · refine .inr ⟨rfl, forall₂_trans ?_ first second⟩
          exact fun v hv w hw x hx => ih v hv (ha.fields v hv) (hb.fields w hw) (hc.fields x hx)
      | _ => cases second
    | _ => cases first
  | _ => cases b <;> cases c <;> simp_all [equal]

/-- Cells of one identity that differ would break the chain. -/
example : (data 0 0 []).equal (data 0 1 []) = true ∧ (data 0 1 []).equal (data 1 1 []) = true ∧
    (data 0 0 []).equal (data 1 1 []) = false := ⟨rfl, rfl, rfl⟩

@[simp] theorem equal_self (a : Value) : a.equal a = !a.isNaN := by
  cases a with
  | scalar s =>
    cases s with
    | double x => cases x <;> simp [equal, Scalar.equal, Floating.equal, Floating.position, isNaN]
    | _ => simp [equal, Scalar.equal_iff, Scalar.meaning, isNaN]
  | _ => simp [equal, isNaN]

/-- A cell is equal to a copy of it unless a field is not a number. -/
theorem equal_copy_iff {i j : Nat} (copied : i ≠ j) (tag : UInt32) (fields : List Value) :
    (data i tag fields).equal (data j tag fields) = true ↔ ∀ v ∈ fields, v.isNaN = false := by
  simp [equal_data_iff, copied, List.forall₂_same]

end Value

/-- In one heap, equality is symmetric and transitive, and only what is not a number, by itself,
differs from itself: a cell that holds it is equal to itself, though not to a copy. All that a
program comes to hold is in one heap. -/
theorem equality_laws :
    (∀ (heap : Heap) (a b c : Value), a.In heap → b.In heap → c.In heap →
      a.equal b = b.equal a ∧
      (a.equal b = true → b.equal c = true → a.equal c = true) ∧
      (a.equal a = true ↔ a.isNaN = false)) ∧
    (∀ (i j : Nat) (tag : UInt32) (fields : List Value), i ≠ j →
      ((Value.data i tag fields).equal (.data j tag fields) = true ↔
        ∀ v ∈ fields, v.isNaN = false)) ∧
    ∀ m, Program.Reached m → ∃ heap, m.Within heap := by
  refine ⟨fun heap a b c ha hb hc => ⟨?_, ?_, ?_⟩, ?_, ?_⟩
  · exact Bool.eq_iff_iff.mpr ⟨Value.equal_symm, Value.equal_symm⟩
  · exact Value.equal_trans ha hb hc
  · simp
  · exact fun i j tag fields copied => Value.equal_copy_iff copied tag fields
  · exact fun m reached => reached.within

/-- A cell that holds what is not a number is equal to itself, but its field is not, nor is a
copy. -/
theorem equality_laws_nan :
    let nan := Value.scalar (.double .invalid)
    let heap : Heap := [(0, [nan]), (0, [nan])]
    let cell := Value.data 0 0 [nan]
    let copy := Value.data 1 0 [nan]
    cell.In heap ∧ copy.In heap ∧ cell.equal cell = true ∧ ¬ nan.equal nan = true ∧
      ¬ cell.equal copy = true ∧ cell.equal copy = copy.equal cell := by
  intro nan heap cell copy
  have fields : ∀ v ∈ [nan], v.In heap := List.forall_mem_singleton.mpr (.scalar _)
  have cellIn : cell.In heap := .data rfl fields
  have copyIn : copy.In heap := .data rfl fields
  obtain ⟨laws, copies, -⟩ := equality_laws
  obtain ⟨symm, -, self⟩ := laws heap cell copy copy cellIn copyIn copyIn
  obtain ⟨-, -, selfNaN⟩ := laws heap nan nan nan (.scalar _) (.scalar _) (.scalar _)
  refine ⟨cellIn, copyIn, self.mpr rfl, fun same => ?_, fun same => ?_, symm⟩
  · cases selfNaN.mp same
  · cases (copies 0 1 0 [nan] Nat.zero_ne_one).mp same nan (List.mem_singleton_self nan)

end CallByNeed
