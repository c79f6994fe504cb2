import CallByNeed.Program
import CallByNeed.Proofs.Simulation

set_option autoImplicit false

/-!
Ways to lay runs side by side.

Where identities and counters are equal, the two runs are one run, so an outcome
does not depend on how much fuel is left over. Where an identity corresponds to
itself once it has been given out, a run keeps to such identities. Where the
identities or the thunks from some place on are moved, nothing else is.
-/

namespace CallByNeed

namespace Correspondence

/-! Everything corresponds to itself -/

structure Reflexive (c : Correspondence) : Prop where
  data : ∀ i, c.data i i
  closure : ∀ i, c.closure i i
  thunk : c.thunk = Eq := by rfl
  held : ∀ i, c.held i := by exact fun _ => trivial
  past : c.past [] [] := by exact ⟨rfl, rfl⟩

section Reflexive

variable {c : Correspondence} (law : c.Reflexive)
include law

theorem Values.refl (v : Value) : c.Values v v := by
  induction v using Value.nested_induction with
  | scalar s => exact .scalar s
  | data i tag fields ih => exact .data (law.data i) (List.forall₂_same.mpr ih)
  | closure i code scope missing bound inScope inBound =>
    refine .closure (law.closure i) (List.forall₂_same.mpr fun args member => ?_)
      (List.forall₂_same.mpr inBound)
    exact List.forall₂_same.mpr (inScope args member)
  | thunk ref => exact .thunk (law.thunk ▸ rfl) (law.held ref)
  | mutVar ref => exact .mutVar ref
  | mVar ref => exact .mVar ref

theorem Lists.refl (vs : List Value) : c.Lists vs vs :=
  List.forall₂_same.mpr fun v _ => Values.refl law v

theorem Scopes.refl (scope : Scope) : c.Scopes scope scope :=
  List.forall₂_same.mpr fun args _ => Lists.refl law args

theorem Cells.refl (cell : Cell) : c.Cells cell cell := by
  cases cell with
  | pending computation =>
    cases computation with
    | eval body scope => exact .pending (.eval body (Scopes.refl law scope))
    | unpackRest chars rest => exact .pending (.unpackRest chars (Values.refl law rest))
    | fail e => exact .pending (.fail e)
  | forcing => exact .forcing
  | done value => exact .done (Values.refl law value)
  | failed e => exact .failed e

theorem Events.refl (event : Event) : c.Events event event := by
  cases event with
  | enter code args => exact .enter code (Lists.refl law args)
  | start ref => exact .start (law.thunk ▸ rfl)
  | _ => constructor

theorem Journals.refl (journal : List Event) : c.Journals journal journal := by
  induction journal with
  | nil => exact .past law.past
  | cons event _ ih => exact .cons (Events.refl law event) ih

theorem Tasks.refl (task : Task) : c.Tasks task task := by
  cases task with
  | force value => exact .force (Values.refl law value)
  | apply callee args => exact .apply (Values.refl law callee) (Lists.refl law args)
  | eval body scope => exact .eval body (Scopes.refl law scope)

theorem Contents.refl (m : Machine) : c.Contents m m where
  present := by
    rw [law.thunk]
    rintro i _ rfl
    rfl
  cell := by
    rw [law.thunk]
    rintro i _ rfl
    exact Cells.refl law (m.cell i)
  mutVars_size := rfl
  mutVar ref := Values.refl law (m.mutVar ref)
  mVars_size := rfl
  mVar ref := by
    cases m.mVar ref with
    | none => exact .none
    | some value => exact .some (Values.refl law value)
  registers := List.forall₂_same.mpr fun _ _ => ⟨rfl, Values.refl law _⟩
  journal := Journals.refl law m.journal

end Reflexive

/-! Nothing corresponds to anything else -/

def equal : Correspondence where
  data := Eq
  closure := Eq

theorem reflexive_equal : equal.Reflexive where
  data _ := rfl
  closure _ := rfl

section Equal

theorem eq_of_forall₂ {α : Type} {R : α → α → Prop} {as bs : List α} (h : List.Forall₂ R as bs)
    (each : ∀ a ∈ as, ∀ b, R a b → a = b) : as = bs := by
  have same : List.Forall₂ Eq as bs := forall₂_imp_of_mem h each
  rwa [List.forall₂_eq_eq_eq] at same

theorem Values.eq {v w : Value} (h : equal.Values v w) : v = w := by
  induction v using Value.nested_induction generalizing w with
  | data i tag fields ih =>
    cases h with
    | data ids alike =>
      cases ids
      rw [eq_of_forall₂ alike fun v member _ => ih v member]
  | closure i code scope missing bound inScope inBound =>
    cases h with
    | closure ids scopes bounds =>
      cases ids
      rw [eq_of_forall₂ bounds fun v member _ => inBound v member,
        eq_of_forall₂ scopes fun args outer _ alike =>
          eq_of_forall₂ alike fun v member _ => inScope args outer v member]
  | thunk ref =>
    cases h with
    | thunk places =>
      cases places
      rfl
  | _ =>
    cases h
    rfl

theorem Lists.eq {vs ws : List Value} (h : equal.Lists vs ws) : vs = ws :=
  eq_of_forall₂ h fun _ _ _ => Values.eq

theorem Scopes.eq {vs ws : Scope} (h : equal.Scopes vs ws) : vs = ws :=
  eq_of_forall₂ h fun _ _ _ => Lists.eq

theorem Cells.eq {cell cell' : Cell} (h : equal.Cells cell cell') : cell = cell' := by
  cases h with
  | pending computations =>
    cases computations with
    | eval body scopes => rw [Scopes.eq scopes]
    | unpackRest chars rest => rw [rest.eq]
    | fail e => rfl
  | forcing => rfl
  | done values => rw [values.eq]
  | failed e => rfl

theorem Events.eq {event event' : Event} (h : equal.Events event event') : event = event' := by
  cases h with
  | enter code args => rw [Lists.eq args]
  | start places =>
    cases places
    rfl
  | _ => rfl

theorem Journals.eq {journal journal' : List Event} (h : equal.Journals journal journal') :
    journal = journal' := by
  induction h with
  | past before => rw [before.1, before.2]
  | cons events _ ih => rw [events.eq, ih]

theorem eq_of_getD {α : Type} {as bs : Array α} {d : α} (sizes : as.size = bs.size)
    (each : ∀ i, as.getD i d = bs.getD i d) : as = bs := by
  refine Array.ext sizes fun i inside inside' => ?_
  simpa [Array.getD_eq_getD_getElem?, inside, inside'] using each i

end Equal

end Correspondence

open Correspondence

namespace Alignment

/-! One run -/

theorem eq_iff_eq {i j i' j' : Nat} (h : i = j) (h' : i' = j') : i = i' ↔ j = j' := by
  rw [h, h']

def same : Alignment where
  Stage := Unit
  order := PUnit.instLinearOrder.toPreorder
  stage _ _ _ := ()
  ids _ := equal
  counters := Eq
  stage_le _ _ _ := le_rfl
  mono _ := ⟨id, id, rfl, id, id⟩
  oneToOne _ := ⟨eq_iff_eq, eq_iff_eq, eq_iff_eq⟩
  held _ := trivial
  count update h := congrArg update h

theorem machines_same (m : Machine) : same.Machines m m :=
  ⟨Contents.refl reflexive_equal m, rfl, fun _ => rfl, fun _ => rfl, fun _ => rfl⟩

theorem eq_of_machines_same {m n : Machine} (h : same.Machines m n) : m = n := by
  have size : m.thunks.size = n.thunks.size := h.nextThunk 0
  have thunks : m.thunks = n.thunks := eq_of_getD size fun _ => (h.contents.cell rfl).eq
  have mutVars : m.mutVars = n.mutVars :=
    eq_of_getD h.contents.mutVars_size fun ref => (h.contents.mutVar ref).eq
  have mVars : m.mVars = n.mVars := by
    refine eq_of_getD (d := none) h.contents.mVars_size fun ref => ?_
    show m.mVar ref = n.mVar ref
    have contents := h.contents.mVar ref
    generalize m.mVar ref = content, n.mVar ref = content' at contents ⊢
    cases contents with
    | none => rfl
    | some values => rw [values.eq]
  have registers : m.registers = n.registers :=
    eq_of_forall₂ h.contents.registers fun _ _ _ alike => Prod.ext alike.1 alike.2.eq
  have journal : m.journal = n.journal := h.contents.journal.eq
  have nextData : m.nextData = n.nextData := h.nextData 0
  have nextClosure : m.nextClosure = n.nextClosure := h.nextClosure 0
  have counters : m.counters = n.counters := h.counters
  cases m
  cases n
  exact (Machine.mk.injEq ..).mpr
    ⟨thunks, mutVars, mVars, nextData, nextClosure, registers, counters, journal⟩

end Alignment

theorem Eval.Simulates.ends_of_eq {α : Type} {x y : Eval α} {m m' : Machine}
    {outcome : Except Error α} {R : Unit → α → α → Prop} (eq : ∀ {a b}, R () a b → a = b)
    (h : Eval.Simulates .same () R x y) (ended : x.Ends m outcome m') : y.Ends m outcome m' := by
  obtain ⟨-, outcome', n', ended', outcomes, machines⟩ :=
    h (le_refl _) (Alignment.machines_same m) ended
  rw [Alignment.eq_of_machines_same machines]
  cases outcomes with
  | ok related => rwa [eq related]
  | error e => exact ended'

theorem Eval.Simulates.ends_same {x y : Eval Value} {m m' : Machine} {outcome : Except Error Value}
    (h : Eval.Simulates .same () (Alignment.Values .same) x y) (ended : x.Ends m outcome m') :
    y.Ends m outcome m' :=
  h.ends_of_eq Values.eq ended

/-- Fuel that is left over changes nothing. -/
theorem run_mono {fuel fuel' : Nat} (enough : fuel ≤ fuel') {task : Task} {m m' : Machine}
    {outcome : Except Error Value} (ended : (run fuel task).Ends m outcome m') :
    (run fuel' task).Ends m outcome m' :=
  (run_simulates .same enough (Tasks.refl reflexive_equal task)).ends_same ended

theorem execute_mono {fuel fuel' : Nat} (enough : fuel ≤ fuel') {op : PrimOp} {args : List Value}
    {m m' : Machine} {outcome : Except Error Value}
    (ended : (Eval.execute (run fuel) op args).Ends m outcome m') :
    (Eval.execute (run fuel') op args).Ends m outcome m' :=
  (Eval.simulates_execute (fun _ _ _ => run_simulates .same enough) op
    (Lists.refl reflexive_equal args)).ends_same ended

/-- A computation for each amount of fuel ends with some amount. -/
def Completes {α : Type} (x : Nat → Eval α) (m : Machine) (outcome : Except Error α)
    (m' : Machine) : Prop :=
  ∃ fuel, (x fuel).Ends m outcome m'

/-- Leftover fuel changes nothing. -/
def Rises {α : Type} (x : Nat → Eval α) : Prop :=
  ∀ ⦃fuel fuel' m outcome m'⦄, fuel ≤ fuel' → (x fuel).Ends m outcome m' →
    (x fuel').Ends m outcome m'

section Fuel

variable {α β : Type} {x : Nat → Eval α} {f : α → Nat → Eval β} {m m' : Machine}

theorem Rises.unique (rises : Rises x) {first second : Except Error α} {m₁ m₂ : Machine}
    (h : Completes x m first m₁) (k : Completes x m second m₂) : first = second ∧ m₁ = m₂ := by
  obtain ⟨fuel, ended⟩ := h
  obtain ⟨fuel', ended'⟩ := k
  exact (rises (Nat.le_max_left fuel fuel') ended).unique
    (rises (Nat.le_max_right fuel fuel') ended')

theorem Rises.bind (first : Rises x) (second : ∀ value, Rises (f value)) :
    Rises fun fuel => x fuel >>= fun value => f value fuel := by
  intro fuel fuel' m outcome m' le ended
  rcases Eval.ends_bind.mp ended with ⟨e, failed, rfl⟩ | ⟨a, between, done, rest⟩
  · exact (first le failed).bind_error
  · exact (first le done).bind (second a le rest)

theorem completes_bind (first : Rises x) (second : ∀ value, Rises (f value))
    {outcome : Except Error β} :
    Completes (fun fuel => x fuel >>= fun value => f value fuel) m outcome m' ↔
      (∃ e, Completes x m (.error e) m' ∧ outcome = .error e) ∨
        ∃ a between, Completes x m (.ok a) between ∧ Completes (f a) between outcome m' := by
  constructor
  · rintro ⟨fuel, ended⟩
    rcases Eval.ends_bind.mp ended with ⟨e, failed, rfl⟩ | ⟨a, between, done, rest⟩
    · exact .inl ⟨e, ⟨fuel, failed⟩, rfl⟩
    · exact .inr ⟨a, between, ⟨fuel, done⟩, fuel, rest⟩
  · rintro (⟨e, ⟨fuel, failed⟩, rfl⟩ | ⟨a, between, ⟨fuel, done⟩, fuel', rest⟩)
    · exact ⟨fuel, failed.bind_error⟩
    · exact ⟨max fuel fuel', (first (Nat.le_max_left _ _) done).bind
        (second a (Nat.le_max_right _ _) rest)⟩

theorem Completes.bind_iff {a : α} {between : Machine} {outcome : Except Error β}
    (done : Completes x m (.ok a) between) (first : Rises x) (second : ∀ value, Rises (f value)) :
    Completes (fun fuel => x fuel >>= fun value => f value fuel) m outcome m' ↔
      Completes (f a) between outcome m' := by
  rw [completes_bind first second]
  constructor
  · rintro (⟨e, failed, -⟩ | ⟨b, between', done', rest⟩)
    · cases (first.unique done failed).1
    · obtain ⟨⟨⟩, rfl⟩ := first.unique done done'
      exact rest
  · intro rest
    exact .inr ⟨a, between, done, rest⟩

end Fuel

theorem rises_run (task : Task) : Rises fun fuel => run fuel task :=
  fun _ _ _ _ _ le => run_mono le

/-! Programs -/

/-- The machines that programs come to, step after step. -/
inductive Program.Reached : Machine → Prop where
  | start : Reached {}
  | step {fuel : Nat} {m next : Machine} {step : Step} {report : Report} :
      Reached m → runStep fuel m step = some (report, next) → Reached next

/-- A step of a program runs its body and may keep the result in a register. -/
theorem Program.runStep_cases {fuel : Nat} {m next : Machine} {step : Step} {report : Report}
    (ran : Program.runStep fuel m step = some (report, next)) :
    ∃ outcome after, (CallByNeed.run fuel (.eval step.body [])).Ends m outcome after ∧
      (next = after ∨ ∃ name value, outcome = .ok value ∧ next = after.setRegister name value) := by
  obtain ⟨⟨outcome, after⟩, ended, kept⟩ := Option.bind_eq_some_iff.mp ran
  refine ⟨outcome, after, ended, ?_⟩
  cases kept
  unfold Program.keep
  split
  · next name value _ => exact .inr ⟨name, value, rfl, rfl⟩
  · exact .inl rfl

/-! Machines that correspond to themselves -/

section Self

variable {A : Alignment} {m m' next : Machine} (machines : A.Machines m m)
include machines

theorem Eval.Simulates.self {x : Eval Value} {outcome : Except Error Value}
    (h : Eval.Simulates A (A.reached m) A.Values x x) (ended : x.Ends m outcome m') :
    A.reached m ≤ A.reached m' ∧ A.Machines m' m' ∧ ∀ value, outcome = .ok value →
      A.Values (A.reached m') value value := by
  obtain ⟨grown, outcome', n', ended', outcomes, machines'⟩ := h (le_refl _) machines ended
  obtain ⟨rfl, rfl⟩ := ended.unique ended'
  refine ⟨grown, machines', ?_⟩
  rintro value rfl
  cases outcomes with
  | ok values => exact values

theorem Alignment.Machines.setRegister (name : String) {value : Value}
    (values : A.Values (A.reached m) value value) :
    A.Machines (m.setRegister name value) (m.setRegister name value) :=
  { machines with
    contents := { machines.contents with
      registers := .cons ⟨rfl, values⟩ machines.contents.registers } }

theorem Program.runStep_self {fuel : Nat} {step : Step} {report : Report}
    (ran : Program.runStep fuel m step = some (report, next)) : A.Machines next next := by
  obtain ⟨outcome, after, ended, kept⟩ := Program.runStep_cases ran
  have body := run_simulates A (k := A.reached m) (Nat.le_refl fuel) (.eval step.body .nil)
  obtain ⟨-, machines', known⟩ := body.self machines ended
  obtain rfl | ⟨name, value, result, rfl⟩ := kept
  · exact machines'
  · exact machines'.setRegister name (known value result)

end Self

/-- What corresponds to itself in the empty machine does so wherever programs come to. -/
theorem Program.Reached.self {A : Alignment} {m : Machine} (start : A.Machines {} {})
    (reached : Program.Reached m) : A.Machines m m := by
  induction reached with
  | start => exact start
  | step _ ran before => exact Program.runStep_self before ran

/-! Identities that have been given out -/

/-- A closure corresponds to itself if its identity has been given out. -/
def Alignment.known : Alignment where
  Stage := Nat
  stage _ closures _ := closures
  ids closures :=
    { data := Eq
      closure := fun i j => i = j ∧ i < closures }
  counters _ _ := True
  stage_le _ le _ := le
  mono le := ⟨id, fun ⟨same, below⟩ => ⟨same, Nat.lt_of_lt_of_le below le⟩, rfl, id, id⟩
  oneToOne _ := ⟨eq_iff_eq, fun h h' => eq_iff_eq h.1 h'.1, eq_iff_eq⟩
  held _ := trivial
  count _ _ := trivial

namespace Machine

/-- All closures in the value have an identity that this machine has given out. -/
def Knows (m : Machine) (value : Value) : Prop := Alignment.known.Values m.nextClosure value value

/-- All closures in the machine have an identity that it has given out. -/
def WellFormed (m : Machine) : Prop := (Alignment.known.ids m.nextClosure).Contents m m

theorem wellFormed_empty : WellFormed {} := .empty ⟨rfl, rfl⟩

theorem WellFormed.machines {m : Machine} (formed : m.WellFormed) :
    Alignment.known.Machines m m :=
  ⟨formed, trivial, fun _ => rfl, fun _ => ⟨rfl, Nat.lt_succ_self _⟩, fun _ => rfl⟩

end Machine

theorem Eval.Simulates.wellFormed {x : Eval Value} {m m' : Machine}
    {outcome : Except Error Value}
    (h : Eval.Simulates .known m.nextClosure (Alignment.Values .known) x x)
    (formed : m.WellFormed) (ended : x.Ends m outcome m') :
    m.nextClosure ≤ m'.nextClosure ∧ m'.WellFormed ∧ ∀ value, outcome = .ok value →
      m'.Knows value := by
  obtain ⟨grown, machines, known⟩ := h.self formed.machines ended
  exact ⟨grown, machines.contents, known⟩

/-- All closures that a program comes to hold have an identity that was given out. -/
theorem Program.Reached.wellFormed {m : Machine} (reached : Program.Reached m) : m.WellFormed :=
  (reached.self Machine.wellFormed_empty.machines).contents

/-! Identities that are moved -/

/-- Identities from `first` on are moved up by `distance`. -/
def Moved (first distance i j : Nat) : Prop := j = if i < first then i else i + distance

theorem moved_self {first distance i : Nat} (below : i < first) : Moved first distance i i :=
  (if_pos below).symm

namespace Alignment

/-- Closures correspond as given, whatever the counters say. -/
def ofClosures (closure : Nat → Nat → Prop)
    (oneToOne : ∀ {i j i' j'}, closure i j → closure i' j' → (i = i' ↔ j = j')) : Alignment where
  Stage := Nat
  stage _ closures _ := closures
  ids _ :=
    { data := Eq
      closure := closure }
  counters _ _ := True
  stage_le _ le _ := le
  mono _ := ⟨id, id, rfl, id, id⟩
  oneToOne _ := ⟨eq_iff_eq, oneToOne, eq_iff_eq⟩
  held _ := trivial
  count _ _ := trivial

/-- From the machine that did not skip an identity to the one that did. -/
def ahead (first distance : Nat) : Alignment :=
  ofClosures (Moved first distance) (by grind [Moved])

/-- From the machine that skipped identities to the one that did not. -/
def back (first distance : Nat) : Alignment :=
  ofClosures (flip (Moved first distance)) (by grind [Moved, flip])

/-- The journals differ by the starts of thunks between `first` and `first + distance`. -/
def Passed (first distance : Nat) (before before' : List Event) : Prop :=
  ∃ refs : List Nat, (∀ ref ∈ refs, first ≤ ref ∧ ref < first + distance) ∧
    before' = refs.map .start ++ before

/-- Data cells and thunks correspond as given, whatever the counters say. -/
def ofPlaces (data thunk : Nat → Nat → Prop) (past : List Event → List Event → Prop)
    (data_iff : ∀ {i j i' j'}, data i j → data i' j' → (i = i' ↔ j = j'))
    (thunk_iff : ∀ {i j i' j'}, thunk i j → thunk i' j' → (i = i' ↔ j = j')) : Alignment where
  Stage := Unit
  order := PUnit.instLinearOrder.toPreorder
  stage _ _ _ := ()
  ids _ :=
    { data := data
      closure := Eq
      thunk := thunk
      past := past }
  counters _ _ := True
  stage_le _ _ _ := le_rfl
  mono _ := ⟨id, id, rfl, id, id⟩
  oneToOne _ := ⟨data_iff, eq_iff_eq, thunk_iff⟩
  held _ := trivial
  count _ _ := trivial

/-- From a machine to the one with more cells, which are the `distance` ones from `first` on.
Identities of data cells from `data` on are moved by `passed`. -/
def spread (data passed first distance : Nat) : Alignment :=
  ofPlaces (Moved data passed) (Moved first distance) (Passed first distance)
    (by grind [Moved]) (by grind [Moved])

/-- From the machine with more cells to the one without them. -/
def gather (data passed first distance : Nat) : Alignment :=
  ofPlaces (flip (Moved data passed)) (flip (Moved first distance)) (flip (Passed first distance))
    (by grind [Moved, flip]) (by grind [Moved, flip])

variable (first distance closures : Nat)

theorem known_included_ahead :
    (known.ids first).Included ((ahead first distance).ids closures) := by
  refine ⟨id, ?_, rfl, id, id⟩
  rintro i j ⟨rfl, below⟩
  exact moved_self below

theorem known_included_back :
    (known.ids first).Included ((back first distance).ids closures) := by
  refine ⟨id, ?_, rfl, id, id⟩
  rintro i j ⟨rfl, below⟩
  exact moved_self below

end Alignment

namespace Machine

/-- The machine with other counters and with some identities passed over. -/
def skip (m : Machine) (counters : Counters) (distance : Nat) : Machine :=
  { m with counters := counters, nextClosure := m.nextClosure + distance }

variable {m : Machine} (formed : m.WellFormed) (counters : Counters) (distance : Nat)
include formed

theorem WellFormed.skip_ahead :
    (Alignment.ahead m.nextClosure distance).Machines m (m.skip counters distance) where
  contents := { formed.mono (Alignment.known_included_ahead _ distance _) with }
  counters := trivial
  nextThunk _ := rfl
  nextData _ := rfl
  nextClosure k := by
    show Moved _ _ _ _
    grind [Moved, skip]

theorem WellFormed.skip_back :
    (Alignment.back m.nextClosure distance).Machines (m.skip counters distance) m where
  contents := { formed.mono (Alignment.known_included_back _ distance _) with }
  counters := trivial
  nextThunk _ := rfl
  nextData _ := rfl
  nextClosure k := by
    show Moved _ _ _ _
    grind [Moved, skip]

end Machine

end CallByNeed
