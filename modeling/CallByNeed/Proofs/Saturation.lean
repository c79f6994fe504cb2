import CallByNeed.Proofs.Balance
import CallByNeed.Proofs.Currying

set_option autoImplicit false

/-!
Bodies get their arguments.

`runChecked` does what `run` does and checks all closures before and after every
task, and the arguments of a closure wherever it is extended or entered. No
check can fail, so the two are the same whatever a failed check would do. A
body gets as many arguments as its code takes, in the order in which they were
supplied, however they were spread over applications.
-/

namespace CallByNeed

namespace Eval

/-! Checks -/

/-- Enters the body of a closure, which has to get the arguments that it misses and with
them as many as its code takes. -/
def invokeChecked (panic : Eval Value) (run : Runner) (code : Code) (scope : Scope)
    (missing : Nat) (bound args : List Value) : Eval Value :=
  if args.length = missing ∧ (bound ++ args).length = code.arity
  then enter run code scope (bound ++ args) else panic

/-- Adds arguments to a closure, which has to miss some after that. -/
def extendChecked (panic : Eval Value) (code : Code) (scope : Scope) (missing : Nat)
    (bound args : List Value) : Eval Value :=
  if args.length < missing then newClosure code scope (missing - args.length) (bound ++ args)
  else panic

def applyChecked (panic : Eval Value) (run : Runner) (callee : Value) (args : List Value) :
    Eval Value :=
  match callee with
  | .closure _ code scope missing bound =>
    if args.length = missing then do
      count fun c => { c with exactCalls := c.exactCalls + 1 }
      invokeChecked panic run code scope missing bound args
    else if args.isEmpty then return callee
    else if args.length < missing then do
      count fun c => { c with partialApplications := c.partialApplications + 1 }
      extendChecked panic code scope missing bound args
    else do
      count fun c => { c with overApplications := c.overApplications + 1 }
      let result ← invokeChecked panic run code scope missing bound (args.take missing)
      run (.apply result (args.drop missing))
  | callee => return callee

def stepChecked (panic : Eval Value) (run : Runner) (fuel : Nat) : Task → Eval Value
  | .apply callee args => do applyChecked panic run (← run (.force callee)) args
  | task => step run fuel task

open Classical in
noncomputable def require (panic : Eval Value) (condition : Prop) (x : Eval Value) : Eval Value :=
  if condition then x else panic

/-- Keeps an outcome if all closures are balanced. -/
noncomputable def checkAfter (panic x : Eval Value) : Eval Value :=
  ExceptT.mk do
    let outcome ← x.run
    let m ← get
    (require panic (m.Balanced ∧ ∀ v, outcome = .ok v → v.Balanced) (ExceptT.mk (pure outcome))).run

end Eval

/-- Does a task as `run` does. Every closure in the machine, the task and its outcome is
checked; what fails is replaced by `panic`. -/
noncomputable def runChecked (panic : Eval Value) : (fuel : Nat) → Task → Eval Value
  | 0, _ => Eval.outOfFuel
  | fuel + 1, task => do
    let m ← get
    Eval.require panic (m.Balanced ∧ task.Balanced)
      (Eval.checkAfter panic (Eval.stepChecked panic (runChecked panic fuel) fuel task))

namespace Eval

variable {panic : Eval Value}

theorem require_of {condition : Prop} (holds : condition) (x : Eval Value) :
    require panic condition x = x := by
  rw [require, if_pos holds]

/-- With a balanced closure no check on its arguments fails. -/
theorem applyChecked_eq {callee : Value} (function : callee.Balanced) (run : Runner)
    (args : List Value) : applyChecked panic run callee args = applyForced run callee args := by
  cases function with
  | @closure id code scope missing bound sum _ _ _ =>
    rw [applyChecked, applyForced]
    split
    · next exactly =>
      have saturated : (bound ++ args).length = code.arity := by
        rw [List.length_append]
        omega
      simp only [invokeChecked, if_pos (And.intro exactly saturated)]
    split
    · rfl
    split
    · next fewer => simp only [extendChecked, if_pos fewer]
    · next other _ enough =>
      have taken : (args.take missing).length = missing := by
        rw [List.length_take]
        omega
      have saturated : (bound ++ args.take missing).length = code.arity := by
        rw [List.length_append]
        omega
      simp only [invokeChecked, if_pos (And.intro taken saturated)]
  | scalar | data | thunk | mutVar | mVar => rfl

theorem agree_stepChecked {run run' : Runner} (within : ∀ w task, task.All (balance.value w) →
      Agree balance w balance.value (run task) (run' task))
    (fuel : Nat) {task : Task} (balanced : task.Balanced) :
    Agree balance () balance.value (stepChecked panic run fuel task) (step run' fuel task) := by
  cases task with
  | apply callee args =>
    refine (agree_force within balanced.1).bind fun _ _ forced function => ?_
    rw [applyChecked_eq function]
    exact agree_applyForced within function balanced.2
  | force | eval => exact agree_step within fuel balanced

theorem agree_checkAfter {x y : Eval Value} (body : Agree balance () balance.value x y) :
    Agree balance () balance.value (checkAfter panic x) y := by
  intro m holds
  obtain ⟨same, ends⟩ := body m holds
  refine ⟨?_, ends⟩
  show Option.bind (x.run.run m) _ = _
  rw [same]
  cases ended : y.run.run m with
  | none => rfl
  | some result =>
    obtain ⟨outcome, m'⟩ := result
    obtain ⟨_, -, holds', has⟩ := ends outcome m' ended
    show (require panic (m'.Balanced ∧ ∀ v, outcome = .ok v → v.Balanced) _).run.run m' = _
    rw [require_of ⟨holds'.all, has⟩]
    rfl

end Eval

/-- No check fails, and all closures stay balanced. -/
theorem agree_runChecked (panic : Eval Value) (fuel : Nat) {task : Task}
    (balanced : task.Balanced) :
    Eval.Agree balance () balance.value (runChecked panic fuel task) (run fuel task) := by
  induction fuel generalizing task with
  | zero => exact .outOfFuel
  | succ fuel ih =>
    have step : Eval.Agree balance () balance.value
        (Eval.checkAfter panic (Eval.stepChecked panic (runChecked panic fuel) fuel task))
        (run (fuel + 1) task) :=
      Eval.agree_checkAfter (Eval.agree_stepChecked (fun _ _ => ih) fuel balanced)
    intro m holds
    show (Eval.require panic (m.Balanced ∧ task.Balanced) _).run.run m = _ ∧ _
    rw [Eval.require_of ⟨holds.all, balanced⟩]
    exact step m holds

/-! Arguments in order -/

/-- The value is what the code has become after these arguments were supplied, in this
order, by any number of applications that left it some to miss. Each of them was to the
closure itself or to a thunk of it. -/
inductive Supplied (code : Code) (scope : Scope) : List Value → Value → Prop where
  | define {m m' : Machine} {f : Value} :
      (Eval.define code scope).Ends m (.ok f) m' → Supplied code scope [] f
  | apply {fuel : Nat} {m between m' : Machine} {given args : List Value} {callee f g : Value} :
      Supplied code scope given f → (run fuel (.force callee)).Ends m (.ok f) between →
      given.length + args.length < code.arity →
      (run (fuel + 1) (.apply callee args)).Ends m (.ok g) m' →
      Supplied code scope (given ++ args) g

namespace Supplied

variable {code : Code} {scope : Scope} {given args : List Value} {f : Value}

theorem eq_closure (supplied : Supplied code scope given f) :
    ∃ id, f = .closure id code scope (code.arity - given.length) given ∧
      given.length ≤ code.arity := by
  induction supplied with
  | @define m m' f made =>
    obtain ⟨same, -⟩ := (Eval.ends_iff_of_run rfl).mp made
    exact ⟨m.nextClosure, Except.ok.inj same, Nat.zero_le _⟩
  | @apply fuel m between m' given args callee f g _ forced fewer applied before =>
    obtain ⟨id, rfl, -⟩ := before
    rcases Eval.ends_bind.mp applied with ⟨e, -, impossible⟩ | ⟨f', between', forced', rest⟩
    · cases impossible
    obtain ⟨same, rfl⟩ := forced.unique forced'
    cases same
    by_cases nonempty : args = []
    · subst nonempty
      rw [Eval.applyForced_nil _ _ _ _ _ (by simp at fewer; omega)] at rest
      obtain ⟨same, -⟩ := Eval.ends_pure.mp rest
      cases same
      rw [List.append_nil]
      exact ⟨id, rfl, by omega⟩
    · rw [Eval.applyForced_partial _ _ _ _ _ nonempty (by omega)] at rest
      obtain ⟨same, -⟩ := (Eval.ends_iff_of_run rfl).mp rest
      cases same
      rw [List.length_append, ← Nat.sub_sub]
      exact ⟨_, rfl, by omega⟩

/-- With enough arguments the body is entered on the first of all that were supplied, as
many as the code takes; its result is applied to the others. -/
theorem applyForced_eq (supplied : Supplied code scope given f)
    (enough : code.arity ≤ (given ++ args).length) (run : Eval.Runner) :
    ∃ update, Eval.applyForced run f args = (Eval.count update >>= fun _ =>
      Eval.enter run code scope ((given ++ args).take code.arity) >>= fun result =>
        if (given ++ args).length = code.arity then pure result
        else run (.apply result ((given ++ args).drop code.arity))) := by
  obtain ⟨id, rfl, le⟩ := supplied.eq_closure
  rw [List.length_append] at enough ⊢
  by_cases exactly : given.length + args.length = code.arity
  · have whole : (given ++ args).take code.arity = given ++ args := by
      rw [List.take_of_length_le (by simp [exactly])]
    refine ⟨fun c => { c with exactCalls := c.exactCalls + 1 }, ?_⟩
    rw [Eval.applyForced_exact _ _ _ _ _ (by omega)]
    simp only [whole, if_pos exactly, bind_pure]
  · have first : (given ++ args).take code.arity =
        given ++ args.take (code.arity - given.length) := by
      rw [List.take_append, List.take_of_length_le le]
    have others : (given ++ args).drop code.arity = args.drop (code.arity - given.length) := by
      rw [List.drop_append, List.drop_of_length_le le, List.nil_append]
    refine ⟨fun c => { c with overApplications := c.overApplications + 1 }, ?_⟩
    rw [Eval.applyForced_over _ _ _ _ _ (by omega)]
    simp only [first, others, if_neg exactly]

end Supplied

/-- In all machines that programs come to, and before and after every task of every run,
closures are balanced and bodies have their arguments; no check can fail, whatever it
would do. A closure that was supplied with arguments by any number of applications has
these and misses the others. Applied to enough of them it enters its body on the first
that were supplied, in order. -/
theorem closures_stay_balanced :
    (∀ m, Program.Reached m → m.Balanced) ∧
    (∀ fuel task m, m.Balanced → task.Balanced →
      (∀ panic, (runChecked panic fuel task).run.run m = (run fuel task).run.run m) ∧
      ∀ outcome m', (run fuel task).Ends m outcome m' →
        m'.Balanced ∧ ∀ v, outcome = .ok v → v.Balanced) ∧
    ∀ code scope given f, Supplied code scope given f →
      (∃ id, f = .closure id code scope (code.arity - given.length) given ∧
        given.length ≤ code.arity) ∧
      ∀ args, code.arity ≤ (given ++ args).length → ∀ run, ∃ update,
        Eval.applyForced run f args = (Eval.count update >>= fun _ =>
          Eval.enter run code scope ((given ++ args).take code.arity) >>= fun result =>
            if (given ++ args).length = code.arity then pure result
            else run (.apply result ((given ++ args).drop code.arity))) := by
  refine ⟨fun m reached => reached.balanced, ?_, ?_⟩
  · intro fuel task m before balanced
    have agree (panic : Eval Value) := agree_runChecked panic fuel balanced m before.holds
    refine ⟨fun panic => (agree panic).1, fun outcome m' ended => ?_⟩
    obtain ⟨_, -, holds, has⟩ := (agree .outOfFuel).2 outcome m' ended
    exact ⟨holds.all, has⟩
  · intro code scope given f supplied
    exact ⟨supplied.eq_closure, fun args enough run => supplied.applyForced_eq enough run⟩

/-- A function of two arguments gets one of them, and then two more. -/
theorem closures_stay_balanced_partial :
    let code : Code := ⟨2, none, .arg 1 0⟩
    let g : Value := .closure 1 code [] 1 [.char 'a']
    ∃ m, Program.Reached m ∧ m.register? "g" = some g ∧ m.Balanced ∧
      Task.Balanced (.apply g [.char 'b', .char 'c']) ∧
      (∀ panic, (runChecked panic 3 (.apply g [.char 'b', .char 'c'])).run.run m =
        (run 3 (.apply g [.char 'b', .char 'c'])).run.run m) ∧
      Supplied code [] [.char 'a'] g ∧
      ∃ update, Eval.applyForced (run 3) g [.char 'b', .char 'c'] =
        (Eval.count update >>= fun _ =>
          Eval.enter (run 3) code [] [.char 'a', .char 'b'] >>= fun result =>
            run 3 (.apply result [.char 'c'])) := by
  intro code g
  have letters (cs : List Char) : ∀ v ∈ cs.map Value.char, v.Balanced := by
    intro v member
    obtain ⟨c, -, rfl⟩ := List.mem_map.mp member
    exact .scalar _
  have task : Task.Balanced (.apply g [.char 'b', .char 'c']) :=
    ⟨.closure 1 rfl (fun _ => Nat.one_pos) (List.forall_mem_nil _) (letters ['a']),
      letters ['b', 'c']⟩
  let f : Value := .closure 0 code [] 2 []
  have defined : Supplied code [] [] f := @Supplied.define code [] {} _ f rfl
  have forced : (run 1 (.force f)).Ends { nextClosure := 1 } (.ok f) { nextClosure := 1 } := rfl
  have supplied : Supplied code [] [.char 'a'] g :=
    @Supplied.apply code [] 1 _ _ _ [] [.char 'a'] f f g defined forced (by decide) rfl
  let body : Expr := .perform .apply [.lam 2 none (.arg 1 0), .lit (.scalar (.char 'a'))]
  have reached := @Program.Reached.step 4 {} _ ⟨some "g", body⟩ _ .start rfl
  obtain ⟨programs, runs, arguments⟩ := closures_stay_balanced
  have balanced := programs _ reached
  refine ⟨_, reached, rfl, balanced, task, (runs 3 _ _ balanced task).1, supplied, ?_⟩
  exact (arguments _ _ _ _ supplied).2 _ (by decide) (run 3)

end CallByNeed
