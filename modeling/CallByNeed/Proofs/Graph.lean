import CallByNeed.Proofs.Correspondence

set_option autoImplicit false

/-!
Graphs of thunks and what their nodes mean.

A node returns a value or applies a primitive operation to values, and those may
be thunks of the graph again. Evaluation follows the graph from left to right. It
has no cells and remembers nothing, so it evaluates a shared node anew each time
and does not end on a cycle that it has to follow.
-/

namespace CallByNeed

mutual

/-- The value that a literal stands for; the identities are of no importance. -/
def Literal.value : Literal → Value
  | .scalar s => .scalar s
  | .data tag fields => .data 0 tag (Literal.values fields)

def Literal.values : List Literal → List Value
  | [] => []
  | field :: fields => field.value :: Literal.values fields

end

@[simp] theorem Literal.isThunk_value (literal : Literal) : literal.value.isThunk = false := by
  cases literal with
  | scalar s => rfl
  | data tag fields => rfl

inductive Node where
  | returns (value : Value)
  | calls (op : PrimOp) (args : List Value)

def Node.values : Node → List Value
  | .returns value => [value]
  | .calls _ args => args

/-- The nodes of a graph by the references of their thunks. -/
abbrev Graph := Nat → Option Node

/-- An evaluation that ends with a value or an error, or runs out of fuel. -/
abbrev Attempt := ExceptT Error Option

namespace Attempt

variable {α β : Type}

def outOfFuel : Attempt α := ExceptT.mk none

theorem run_bind_eq_some {x : Attempt α} {f : α → Attempt β} {outcome : Except Error β} :
    (x >>= f).run = some outcome ↔
      (∃ e, x.run = some (.error e) ∧ outcome = .error e) ∨
        ∃ a, x.run = some (.ok a) ∧ (f a).run = some outcome := by
  show Option.bind x.run _ = _ ↔ _
  cases x.run with
  | none => simp
  | some first =>
    cases first with
    | error e =>
      show some (Except.error e) = _ ↔ _
      grind
    | ok a =>
      show (f a).run = _ ↔ _
      grind

/-- Where `x` ends, `y` ends in the same way. -/
def Below (x y : Attempt α) : Prop := ∀ outcome, x.run = some outcome → y.run = some outcome

theorem Below.bind {x y : Attempt α} {f f' : α → Attempt β} (first : x.Below y)
    (second : ∀ a, (f a).Below (f' a)) : (x >>= f).Below (y >>= f') := by
  intro outcome found
  rw [run_bind_eq_some] at found ⊢
  rcases found with ⟨e, failed, rfl⟩ | ⟨a, done, found⟩
  · exact .inl ⟨e, first _ failed, rfl⟩
  · exact .inr ⟨a, first _ done, second a _ found⟩

theorem below_mapM {f f' : α → Attempt β} (each : ∀ a, (f a).Below (f' a)) (as : List α) :
    (as.mapM f).Below (as.mapM f') := by
  induction as with
  | nil => exact fun _ found => found
  | cons a as ih =>
    rw [List.mapM_cons, List.mapM_cons]
    exact (each a).bind fun b => ih.bind fun bs _ found => found

/-- Attempts with more and more fuel: one that has ended is not taken back. -/
def Rising (attempts : Nat → Attempt α) : Prop :=
  ∀ ⦃k l : Nat⦄, k ≤ l → (attempts k).Below (attempts l)

/-- What the attempts come to. If none of them ends, that is a black hole. -/
def Means (attempts : Nat → Attempt α) (outcome : Except Error α) : Prop :=
  (∃ fuel, (attempts fuel).run = some outcome) ∨
    (∀ fuel, (attempts fuel).run = none) ∧ outcome = .error .blackHole

theorem Rising.unique {attempts : Nat → Attempt α} (rising : Rising attempts) {k l : Nat}
    {first second : Except Error α} (h : (attempts k).run = some first)
    (h' : (attempts l).run = some second) : first = second := by
  have later := rising (Nat.le_max_left k l) _ h
  rw [rising (Nat.le_max_right k l) _ h'] at later
  exact (Option.some.inj later).symm

theorem exists_means (attempts : Nat → Attempt α) : ∃ outcome, Means attempts outcome := by
  by_cases ends : ∃ fuel outcome, (attempts fuel).run = some outcome
  · obtain ⟨fuel, outcome, found⟩ := ends
    exact ⟨outcome, .inl ⟨fuel, found⟩⟩
  · refine ⟨.error .blackHole, .inr ⟨fun fuel => ?_, rfl⟩⟩
    rw [Option.eq_none_iff_forall_ne_some]
    exact fun outcome found => ends ⟨fuel, outcome, found⟩

theorem Rising.means_unique {attempts : Nat → Attempt α} (rising : Rising attempts)
    {first second : Except Error α} (h : Means attempts first) (h' : Means attempts second) :
    first = second := by
  rcases h with ⟨k, found⟩ | ⟨never, rfl⟩
  · rcases h' with ⟨l, found'⟩ | ⟨never, -⟩
    · exact rising.unique found found'
    · rw [never k] at found
      cases found
  · rcases h' with ⟨l, found'⟩ | ⟨-, rfl⟩
    · rw [never l] at found'
      cases found'
    · rfl

/-- A sequence means what its first part means, if that is an error or a black hole, and
otherwise what the rest means. -/
theorem Means.bind_error {attempts : Nat → Attempt α} {rest : Nat → α → Attempt β} {e : Error}
    (h : Means attempts (.error e)) :
    Means (fun fuel => attempts fuel >>= rest fuel) (.error e) := by
  rcases h with ⟨k, failed⟩ | ⟨never, is⟩
  · exact .inl ⟨k, run_bind_eq_some.mpr (.inl ⟨e, failed, rfl⟩)⟩
  · refine .inr ⟨fun fuel => ?_, by cases is; rfl⟩
    rw [Option.eq_none_iff_forall_ne_some]
    intro outcome found
    rcases run_bind_eq_some.mp found with ⟨_, ended, -⟩ | ⟨_, ended, -⟩
    all_goals simp [never fuel] at ended

theorem Means.bind {attempts : Nat → Attempt α} {rest : Nat → α → Attempt β} {a : α} {k : Nat}
    {outcome : Except Error β} (rising : Rising attempts) (rising' : Rising fun fuel => rest fuel a)
    (done : (attempts k).run = some (.ok a)) (h : Means (fun fuel => rest fuel a) outcome) :
    Means (fun fuel => attempts fuel >>= rest fuel) outcome := by
  rcases h with ⟨l, found⟩ | ⟨never, is⟩
  · refine .inl ⟨max k l, run_bind_eq_some.mpr (.inr ⟨a, ?_, ?_⟩)⟩
    · exact rising (Nat.le_max_left k l) _ done
    · exact rising' (Nat.le_max_right k l) _ found
  · refine .inr ⟨fun fuel => ?_, is⟩
    rw [Option.eq_none_iff_forall_ne_some]
    intro outcome found
    rcases run_bind_eq_some.mp found with ⟨e, failed, -⟩ | ⟨b, ended, found⟩
    · cases rising.unique done failed
    · cases rising.unique done ended
      simp [never fuel] at found

end Attempt

namespace Graph

/-- What a node does, given what its values evaluate to. -/
def evaluateNode (evaluate : Value → Attempt Value) : Node → Attempt Value
  | .returns value => evaluate value
  | .calls op args =>
    if args.length = op.arity then do
      let values ← args.mapM evaluate
      match op.compute (values.map Value.operand) with
      | .ok result => return result.value
      | .error e => throw e
    else throw (op.arityError args.length)

def evaluate (g : Graph) : (fuel : Nat) → Value → Attempt Value
  | 0, _ => Attempt.outOfFuel
  | fuel + 1, .thunk ref =>
    match g ref with
    | some node => evaluateNode (g.evaluate fuel) node
    | none => Attempt.outOfFuel
  | _ + 1, value => return value

variable {g : Graph} {ref : Nat} {node : Node}

theorem evaluate_thunk (at_ref : g ref = some node) (fuel : Nat) :
    g.evaluate (fuel + 1) (.thunk ref) = evaluateNode (g.evaluate fuel) node := by
  rw [evaluate, at_ref]

theorem evaluate_of_not_thunk {value : Value} (plain : value.isThunk = false) (fuel : Nat) :
    g.evaluate (fuel + 1) value = return value := by
  cases value with
  | thunk => cases plain
  | _ => rfl

theorem evaluateNode_below {f f' : Value → Attempt Value}
    (each : ∀ value, (f value).Below (f' value)) (node : Node) :
    (evaluateNode f node).Below (evaluateNode f' node) := by
  cases node with
  | returns value => exact each value
  | calls op args =>
    simp only [evaluateNode]
    split
    · exact (Attempt.below_mapM each args).bind fun values _ found => found
    · exact fun _ found => found

theorem evaluate_below (g : Graph) {k l : Nat} (le : k ≤ l) (value : Value) :
    (g.evaluate k value).Below (g.evaluate l value) := by
  induction k generalizing l value with
  | zero => exact fun _ found => nomatch found
  | succ k ih =>
    obtain ⟨l, rfl⟩ : ∃ less, l = less + 1 := ⟨l - 1, by omega⟩
    cases value with
    | thunk ref =>
      cases at_ref : g ref with
      | none =>
        rw [evaluate, at_ref]
        exact fun _ found => nomatch found
      | some node =>
        rw [evaluate_thunk at_ref, evaluate_thunk at_ref]
        exact evaluateNode_below (ih (Nat.le_of_succ_le_succ le)) node
    | _ => exact fun _ found => found

theorem rising_evaluate (g : Graph) (value : Value) :
    Attempt.Rising fun fuel => g.evaluate fuel value :=
  fun _ _ le => g.evaluate_below le value

theorem rising_mapM_evaluate (g : Graph) (values : List Value) :
    Attempt.Rising fun fuel => values.mapM (g.evaluate fuel) :=
  fun _ _ le => Attempt.below_mapM (g.evaluate_below le) values

theorem means_thunk (at_ref : g ref = some node) {outcome : Except Error Value}
    (h : Attempt.Means (fun fuel => evaluateNode (g.evaluate fuel) node) outcome) :
    Attempt.Means (fun fuel => g.evaluate fuel (.thunk ref)) outcome := by
  rcases h with ⟨fuel, found⟩ | ⟨never, is⟩
  · exact .inl ⟨fuel + 1, (congrArg ExceptT.run (evaluate_thunk at_ref fuel)).trans found⟩
  · refine .inr ⟨fun fuel => ?_, is⟩
    cases fuel with
    | zero => rfl
    | succ fuel => exact (congrArg ExceptT.run (evaluate_thunk at_ref fuel)).trans (never fuel)

/-! Thunks whose evaluation is under way -/

/-- The evaluation of each of these thunks takes these attempts, and takes them with less
fuel. -/
def Needs (g : Graph) (stack : List Nat) {α : Type} (attempts : Nat → Attempt α) : Prop :=
  ∀ ref ∈ stack, ∀ fuel outcome, (g.evaluate fuel (.thunk ref)).run = some outcome →
    ∃ less < fuel, ∃ found, (attempts less).run = some found

/-- A thunk that needs itself has no value, since each attempt needs a shorter one. -/
theorem Needs.means_blackHole {stack : List Nat} (member : ref ∈ stack)
    (needs : g.Needs stack fun fuel => g.evaluate fuel (.thunk ref)) :
    Attempt.Means (fun fuel => g.evaluate fuel (.thunk ref)) (.error .blackHole) := by
  refine .inr ⟨fun fuel => ?_, rfl⟩
  induction fuel using Nat.strongRecOn with
  | ind fuel ih =>
    rw [Option.eq_none_iff_forall_ne_some]
    intro outcome found
    obtain ⟨less, lt, outcome', shorter⟩ := needs ref member fuel outcome found
    simp [ih less lt] at shorter

theorem Needs.inside {stack : List Nat} (at_ref : g ref = some node)
    (needs : g.Needs stack fun fuel => g.evaluate fuel (.thunk ref)) :
    g.Needs (ref :: stack) fun fuel => evaluateNode (g.evaluate fuel) node := by
  have within (fuel : Nat) (outcome : Except Error Value)
      (found : (g.evaluate fuel (.thunk ref)).run = some outcome) :
      ∃ less < fuel, ∃ found, (evaluateNode (g.evaluate less) node).run = some found := by
    cases fuel with
    | zero => cases found
    | succ fuel => exact ⟨fuel, Nat.lt_succ_self fuel, outcome, evaluate_thunk at_ref fuel ▸ found⟩
  intro other member fuel outcome found
  rcases List.mem_cons.mp member with rfl | member
  · exact within fuel outcome found
  · obtain ⟨less, lt, outcome', shorter⟩ := needs other member fuel outcome found
    obtain ⟨least, lt', rest⟩ := within less outcome' shorter
    exact ⟨least, Nat.lt_trans lt' lt, rest⟩

theorem Needs.first {α β : Type} {stack : List Nat} {attempts : Nat → Attempt α}
    {rest : Nat → α → Attempt β} (needs : g.Needs stack fun fuel => attempts fuel >>= rest fuel) :
    g.Needs stack attempts := by
  intro ref member fuel outcome found
  obtain ⟨less, lt, outcome', sequence⟩ := needs ref member fuel outcome found
  rcases Attempt.run_bind_eq_some.mp sequence with ⟨e, failed, -⟩ | ⟨a, done, -⟩
  · exact ⟨less, lt, _, failed⟩
  · exact ⟨less, lt, _, done⟩

theorem Needs.second {α β : Type} {stack : List Nat} {attempts : Nat → Attempt α}
    {rest : Nat → α → Attempt β} (needs : g.Needs stack fun fuel => attempts fuel >>= rest fuel)
    (rising : Attempt.Rising attempts) {a : α} {k : Nat} (done : (attempts k).run = some (.ok a)) :
    g.Needs stack fun fuel => rest fuel a := by
  intro ref member fuel outcome found
  obtain ⟨less, lt, outcome', sequence⟩ := needs ref member fuel outcome found
  rcases Attempt.run_bind_eq_some.mp sequence with ⟨e, failed, -⟩ | ⟨b, done', ended⟩
  · cases rising.unique done failed
  · cases rising.unique done done'
    exact ⟨less, lt, outcome', ended⟩

end Graph

end CallByNeed
