import CallByNeed.Machine.Eval

set_option autoImplicit false

/-!
How computations on the machine end.

`Ends` relates the machine a computation starts in to its outcome and the
machine it leaves behind. The lemmas take it apart along the monad, so that
later proofs never unfold the transformers.
-/

namespace CallByNeed.Eval

variable {α β : Type} {m m' : Machine}

/-- Started in `m`, the computation ends in `m'` with this outcome. -/
def Ends (x : Eval α) (m : Machine) (outcome : Except Error α) (m' : Machine) : Prop :=
  x.run.run m = some (outcome, m')

theorem Ends.unique {x : Eval α} {first second : Except Error α} {m₁ m₂ : Machine}
    (h : x.Ends m first m₁) (k : x.Ends m second m₂) : first = second ∧ m₁ = m₂ := by
  rw [Ends, h] at k
  simpa using k

theorem ends_iff_of_run {x : Eval α} {result outcome : Except Error α} {after : Machine}
    (h : x.run.run m = some (result, after)) :
    x.Ends m outcome m' ↔ outcome = result ∧ m' = after := by
  simp [Ends, h, eq_comm]

@[simp] theorem ends_pure {a : α} {outcome : Except Error α} :
    (pure a : Eval α).Ends m outcome m' ↔ outcome = .ok a ∧ m' = m :=
  ends_iff_of_run rfl

@[simp] theorem ends_throw {e : Error} {outcome : Except Error α} :
    (throw e : Eval α).Ends m outcome m' ↔ outcome = .error e ∧ m' = m :=
  ends_iff_of_run rfl

@[simp] theorem ends_get {outcome : Except Error Machine} :
    (get : Eval Machine).Ends m outcome m' ↔ outcome = .ok m ∧ m' = m :=
  ends_iff_of_run rfl

@[simp] theorem ends_modify {f : Machine → Machine} {outcome : Except Error Unit} :
    (modify f : Eval Unit).Ends m outcome m' ↔ outcome = .ok () ∧ m' = f m :=
  ends_iff_of_run rfl

@[simp] theorem ends_modifyGet {f : Machine → α × Machine} {outcome : Except Error α} :
    (modifyGet f : Eval α).Ends m outcome m' ↔ outcome = .ok (f m).1 ∧ m' = (f m).2 :=
  ends_iff_of_run rfl

@[simp] theorem not_ends_outOfFuel {outcome : Except Error α} :
    ¬ (outOfFuel : Eval α).Ends m outcome m' := by
  rintro ⟨⟩

theorem ends_bind {x : Eval α} {f : α → Eval β} {outcome : Except Error β} :
    (x >>= f).Ends m outcome m' ↔
      (∃ e, x.Ends m (.error e) m' ∧ outcome = .error e) ∨
        ∃ a between, x.Ends m (.ok a) between ∧ (f a).Ends between outcome m' := by
  show Option.bind (x.run.run m) _ = _ ↔ _
  unfold Ends
  cases first : x.run.run m with
  | none => simp
  | some ended =>
    obtain ⟨e | a, between⟩ := ended
    · show some (Except.error e, between) = _ ↔ _
      grind
    · show (f a).run.run between = _ ↔ _
      grind

theorem ends_tryCatch {x : Eval α} {handler : Error → Eval α} {outcome : Except Error α} :
    (tryCatch x handler).Ends m outcome m' ↔
      (∃ a, x.Ends m (.ok a) m' ∧ outcome = .ok a) ∨
        ∃ e between, x.Ends m (.error e) between ∧ (handler e).Ends between outcome m' := by
  show Option.bind (x.run.run m) _ = _ ↔ _
  unfold Ends
  cases first : x.run.run m with
  | none => simp
  | some ended =>
    obtain ⟨e | a, between⟩ := ended
    · show (handler e).run.run between = _ ↔ _
      grind
    · show some (Except.ok a, between) = _ ↔ _
      grind

theorem ends_remember {ref : Nat} {x : Eval Value} {outcome : Except Error Value} :
    (remember ref x).Ends m outcome m' ↔
      ∃ between, x.Ends m outcome between ∧ m' = between.setCell ref (.ofOutcome outcome) := by
  show Option.bind (x.run.run m) _ = _ ↔ _
  unfold Ends
  cases first : x.run.run m with
  | none => simp
  | some ended =>
    obtain ⟨result, between⟩ := ended
    show some (result, between.setCell ref (.ofOutcome result)) = _ ↔ _
    grind

/-! Sequences that start with an access to the machine -/

@[simp] theorem ends_get_bind {f : Machine → Eval β} {outcome : Except Error β} :
    ((get : Eval Machine) >>= f).Ends m outcome m' ↔ (f m).Ends m outcome m' :=
  Iff.rfl

@[simp] theorem ends_modify_bind {f : Machine → Machine} {g : Unit → Eval β}
    {outcome : Except Error β} :
    ((modify f : Eval Unit) >>= g).Ends m outcome m' ↔ (g ()).Ends (f m) outcome m' :=
  Iff.rfl

/-! Two ways to put a sequence together -/

theorem Ends.bind {x : Eval α} {f : α → Eval β} {a : α} {between : Machine}
    {outcome : Except Error β} (first : x.Ends m (.ok a) between)
    (second : (f a).Ends between outcome m') : (x >>= f).Ends m outcome m' :=
  ends_bind.mpr (.inr ⟨a, between, first, second⟩)

theorem Ends.bind_error {x : Eval α} {f : α → Eval β} {e : Error}
    (first : x.Ends m (.error e) m') : (x >>= f).Ends m (.error e) m' :=
  ends_bind.mpr (.inl ⟨e, first, rfl⟩)

theorem Ends.bind_iff {x : Eval α} {f : α → Eval β} {a : α} {between : Machine}
    {outcome : Except Error β} (first : x.Ends m (.ok a) between) :
    (x >>= f).Ends m outcome m' ↔ (f a).Ends between outcome m' := by
  refine ⟨fun ended => ?_, first.bind⟩
  rcases ends_bind.mp ended with ⟨e, failed, -⟩ | ⟨b, between', done, rest⟩
  · cases (first.unique failed).1
  · obtain ⟨⟨⟩, rfl⟩ := first.unique done
    exact rest

theorem ends_bind_pure {x : Eval α} {f : α → β} {outcome : Except Error β} :
    (x >>= fun a => pure (f a)).Ends m outcome m' ↔
      ∃ result, x.Ends m result m' ∧ outcome = result.map f := by
  rw [ends_bind]
  constructor
  · rintro (⟨e, failed, rfl⟩ | ⟨a, between, done, rest⟩)
    · exact ⟨.error e, failed, rfl⟩
    · obtain ⟨rfl, rfl⟩ := ends_pure.mp rest
      exact ⟨.ok a, done, rfl⟩
  · rintro ⟨e | a, ended, rfl⟩
    · exact .inl ⟨e, ended, rfl⟩
    · exact .inr ⟨a, m', ended, ends_pure.mpr ⟨rfl, rfl⟩⟩

/-! Operations by their arguments -/

theorem execute_of_length_ne {run : Runner} {op : PrimOp} {args : List Value}
    (mismatch : args.length ≠ op.arity) :
    execute run op args = throw (op.arityError args.length) := by
  unfold execute
  exact if_pos mismatch

theorem execute_of_length_eq {run : Runner} {op : PrimOp} {args : List Value}
    (saturated : args.length = op.arity) :
    execute run op args = (forceAll run args >>= fun values =>
      match op.compute (values.map Value.operand) with
      | .ok result => instantiate result
      | .error e => throw e) := by
  unfold execute
  exact if_neg (not_not_intro saturated)

theorem perform_tag (run : Runner) (fuel : Nat) (value : Value) :
    perform run fuel .tag [value] =
      match value.tag? with
      | some tag => return .scalar (.word tag)
      | none => return .unit := rfl

end CallByNeed.Eval
