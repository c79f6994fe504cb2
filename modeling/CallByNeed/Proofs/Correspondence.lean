import CallByNeed.Proofs.Outcome
import Mathlib.Data.List.Forall2
import Mathlib.Order.Nat

set_option autoImplicit false

/-!
Values and machines that are alike up to identities and references.

Data cells and closures carry identities that only tell one cell from another,
and a reference to a thunk only says where its cell is. A `Correspondence` says
which identities and cells of one machine stand for which of another. Everything
else must agree: codes, scopes, contents and the journal. While machines run,
more identities come to correspond, so an `Alignment` gives a correspondence for
each stage of a run, that is, for what has been given out so far.
-/

namespace CallByNeed

/-- Induction on values that gives the hypothesis for everything inside a value. -/
@[elab_as_elim]
theorem Value.nested_induction {motive : Value → Prop} (scalar : ∀ s, motive (.scalar s))
    (data : ∀ id tag fields, (∀ v ∈ fields, motive v) → motive (.data id tag fields))
    (closure : ∀ id code scope missing bound, (∀ args ∈ scope, ∀ v ∈ args, motive v) →
      (∀ v ∈ bound, motive v) → motive (.closure id code scope missing bound))
    (thunk : ∀ ref, motive (.thunk ref)) (mutVar : ∀ ref, motive (.mutVar ref))
    (mVar : ∀ ref, motive (.mVar ref)) (value : Value) : motive value :=
  @Value.rec motive (fun values => ∀ v ∈ values, motive v)
    (fun scope => ∀ args ∈ scope, ∀ v ∈ args, motive v)
    scalar data closure thunk mutVar mVar
    (List.forall_mem_nil _) (fun _ _ head tail => List.forall_mem_cons.mpr ⟨head, tail⟩)
    (List.forall_mem_nil _) (fun _ _ head tail => List.forall_mem_cons.mpr ⟨head, tail⟩)
    value

theorem forall₂_imp_of_mem {α β : Type} {R S : α → β → Prop} {as : List α} {bs : List β}
    (h : List.Forall₂ R as bs) (each : ∀ a ∈ as, ∀ b, R a b → S a b) : List.Forall₂ S as bs := by
  induction h with
  | nil => exact .nil
  | cons head _ ih =>
    exact .cons (each _ (by simp) _ head) (ih fun a member => each a (by simp [member]))

theorem rel_getElem? {α β : Type} {R : α → β → Prop} {as : List α} {bs : List β}
    (h : List.Forall₂ R as bs) (i : Nat) : Option.Rel R as[i]? bs[i]? := by
  induction h generalizing i with
  | nil => exact .none
  | cons head _ ih =>
    cases i with
    | zero => exact .some head
    | succ i => exact ih i

/-- Which identities of data cells and of closures correspond, and which thunks. -/
structure Correspondence where
  data : Nat → Nat → Prop
  closure : Nat → Nat → Prop
  thunk : Nat → Nat → Prop := Eq
  /-- The references to thunks that occur. -/
  held : Nat → Prop := fun _ => True
  /-- The journals up to where events are compared. -/
  past : List Event → List Event → Prop := fun before before' => before = [] ∧ before' = []

namespace Correspondence

variable (c : Correspondence)

inductive Values : Value → Value → Prop where
  | scalar (s : Scalar) : Values (.scalar s) (.scalar s)
  | data {i j : Nat} {tag : UInt32} {fields fields' : List Value} :
      c.data i j → List.Forall₂ Values fields fields' →
      Values (.data i tag fields) (.data j tag fields')
  | closure {i j missing : Nat} {code : Code} {scope scope' : Scope} {bound bound' : List Value} :
      c.closure i j → List.Forall₂ (List.Forall₂ Values) scope scope' →
      List.Forall₂ Values bound bound' →
      Values (.closure i code scope missing bound) (.closure j code scope' missing bound')
  | thunk {i j : Nat} : c.thunk i j → c.held i → Values (.thunk i) (.thunk j)
  | mutVar (ref : Nat) : Values (.mutVar ref) (.mutVar ref)
  | mVar (ref : Nat) : Values (.mVar ref) (.mVar ref)

abbrev Lists : List Value → List Value → Prop := List.Forall₂ c.Values

abbrev Scopes : Scope → Scope → Prop := List.Forall₂ c.Lists

inductive Computations : Computation → Computation → Prop where
  | eval (body : Expr) {scope scope' : Scope} :
      c.Scopes scope scope' → Computations (.eval body scope) (.eval body scope')
  | unpackRest (chars : List Char) {rest rest' : Value} :
      c.Values rest rest' → Computations (.unpackRest chars rest) (.unpackRest chars rest')
  | fail (e : Error) : Computations (.fail e) (.fail e)

inductive Cells : Cell → Cell → Prop where
  | pending {computation computation' : Computation} :
      c.Computations computation computation' →
      Cells (.pending computation) (.pending computation')
  | forcing : Cells .forcing .forcing
  | done {value value' : Value} : c.Values value value' → Cells (.done value) (.done value')
  | failed (e : Error) : Cells (.failed e) (.failed e)

inductive Events : Event → Event → Prop where
  | tick (label : String) : Events (.tick label) (.tick label)
  | start {i j : Nat} : c.thunk i j → Events (.start i) (.start j)
  | define (code : Code) : Events (.define code) (.define code)
  | enter (code : Code) {args args' : List Value} :
      c.Lists args args' → Events (.enter code args) (.enter code args')

inductive Journals : List Event → List Event → Prop where
  | past {before before' : List Event} : c.past before before' → Journals before before'
  | cons {event event' : Event} {events events' : List Event} :
      c.Events event event' → Journals events events' →
      Journals (event :: events) (event' :: events')

inductive Tasks : Task → Task → Prop where
  | force {value value' : Value} : c.Values value value' → Tasks (.force value) (.force value')
  | apply {callee callee' : Value} {args args' : List Value} :
      c.Values callee callee' → c.Lists args args' →
      Tasks (.apply callee args) (.apply callee' args')
  | eval (body : Expr) {scope scope' : Scope} :
      c.Scopes scope scope' → Tasks (.eval body scope) (.eval body scope')

/-- Corresponding identities and thunks are told apart alike. -/
structure OneToOne : Prop where
  data_iff : ∀ {i j i' j'}, c.data i j → c.data i' j' → (i = i' ↔ j = j')
  closure_iff : ∀ {i j i' j'}, c.closure i j → c.closure i' j' → (i = i' ↔ j = j')
  thunk_iff : ∀ {i j i' j'}, c.thunk i j → c.thunk i' j' → (i = i' ↔ j = j')

/-- What occurs in values that correspond under `c` corresponds under `d`. -/
structure Embeds (c d : Correspondence) : Prop where
  data : ∀ {i j}, c.data i j → d.data i j
  closure : ∀ {i j}, c.closure i j → d.closure i j
  thunk : ∀ {i j}, c.thunk i j → c.held i → d.thunk i j ∧ d.held i

/-- Whatever corresponds under `c` corresponds under `d`. The thunks of two machines stand for
each other once and for all. -/
structure Included (c d : Correspondence) : Prop where
  data : ∀ {i j}, c.data i j → d.data i j
  closure : ∀ {i j}, c.closure i j → d.closure i j
  thunk : c.thunk = d.thunk
  held : ∀ {i}, c.held i → d.held i
  past : ∀ {before before'}, c.past before before' → d.past before before'

theorem Included.embeds {c d : Correspondence} (le : c.Included d) : c.Embeds d :=
  ⟨le.data, le.closure, fun places held => ⟨le.thunk ▸ places, le.held held⟩⟩

instance (c d : Correspondence) : Coe (c.Included d) (c.Embeds d) := ⟨Included.embeds⟩

section Embedding

variable {c} {d : Correspondence} (le : c.Embeds d)
include le

theorem Values.mono {v w : Value} (h : c.Values v w) : d.Values v w := by
  induction v using Value.nested_induction generalizing w with
  | data i tag fields ih =>
    cases h with
    | data ids fieldsAlike =>
      exact .data (le.data ids) (forall₂_imp_of_mem fieldsAlike fun v member _ => ih v member)
  | closure i code scope missing bound inScope inBound =>
    cases h with
    | closure ids scopes bounds =>
      refine .closure (le.closure ids) ?_
        (forall₂_imp_of_mem bounds fun v member _ => inBound v member)
      exact forall₂_imp_of_mem scopes fun args outer _ alike =>
        forall₂_imp_of_mem alike fun v member _ => inScope args outer v member
  | thunk ref =>
    cases h with
    | thunk places held => exact .thunk (le.thunk places held).1 (le.thunk places held).2
  | _ =>
    cases h
    constructor

theorem Lists.mono {vs ws : List Value} (h : c.Lists vs ws) : d.Lists vs ws :=
  h.imp fun _ _ => Values.mono le

theorem Scopes.mono {vs ws : Scope} (h : c.Scopes vs ws) : d.Scopes vs ws :=
  h.imp fun _ _ => Lists.mono le

theorem rel_mono {content content' : Option Value} (h : Option.Rel c.Values content content') :
    Option.Rel d.Values content content' := by
  cases h with
  | some values => exact .some (values.mono le)
  | none => exact .none

theorem Computations.mono {computation computation' : Computation}
    (h : c.Computations computation computation') : d.Computations computation computation' := by
  cases h with
  | eval body scopes => exact .eval body (Scopes.mono le scopes)
  | unpackRest chars rest => exact .unpackRest chars (rest.mono le)
  | fail e => exact .fail e

theorem Cells.mono {cell cell' : Cell} (h : c.Cells cell cell') : d.Cells cell cell' := by
  cases h with
  | pending computations => exact .pending (computations.mono le)
  | forcing => exact .forcing
  | done values => exact .done (values.mono le)
  | failed e => exact .failed e

end Embedding

section Inclusion

variable {c} {d : Correspondence} (le : c.Included d)
include le

theorem Events.mono {event event' : Event} (h : c.Events event event') :
    d.Events event event' := by
  cases h with
  | enter code args => exact .enter code (Lists.mono le args)
  | start places => exact .start (le.thunk ▸ places)
  | _ => constructor

theorem Journals.mono {journal journal' : List Event} (h : c.Journals journal journal') :
    d.Journals journal journal' := by
  induction h with
  | past before => exact .past (le.past before)
  | cons events _ ih => exact .cons (events.mono le) ih

end Inclusion

/-- Two machines hold the same under corresponding identities. Thunks that stand for none of the
other machine may hold anything. -/
structure Contents (m n : Machine) : Prop where
  present : ∀ {i j}, c.thunk i j → (i < m.thunks.size ↔ j < n.thunks.size)
  cell : ∀ {i j}, c.thunk i j → c.Cells (m.cell i) (n.cell j)
  mutVars_size : m.mutVars.size = n.mutVars.size
  mutVar : ∀ ref, c.Values (m.mutVar ref) (n.mutVar ref)
  mVars_size : m.mVars.size = n.mVars.size
  mVar : ∀ ref, Option.Rel c.Values (m.mVar ref) (n.mVar ref)
  registers : List.Forall₂ (fun p q => p.1 = q.1 ∧ c.Values p.2 q.2) m.registers n.registers
  journal : c.Journals m.journal n.journal

theorem Contents.empty {c : Correspondence} (past : c.past [] []) : c.Contents {} {} where
  present _ := by simp
  cell _ := .forcing
  mutVars_size := rfl
  mutVar _ := .scalar .unit
  mVars_size := rfl
  mVar _ := .none
  registers := .nil
  journal := .past past

theorem Contents.mono {c d : Correspondence} (le : c.Included d) {m n : Machine}
    (h : c.Contents m n) : d.Contents m n :=
  { h with
    present := fun places => h.present (le.thunk ▸ places)
    cell := fun places => (h.cell (le.thunk ▸ places)).mono le
    mutVar := fun ref => (h.mutVar ref).mono le
    mVar := fun ref => rel_mono le (h.mVar ref)
    registers := h.registers.imp fun _ _ same => ⟨same.1, same.2.mono le⟩
    journal := h.journal.mono le }

section Observations

variable {c} {v w v' w' : Value} {m n : Machine}

theorem Values.operand_eq (h : c.Values v w) : v.operand = w.operand := by
  cases h <;> rfl

theorem Values.typeName_eq (h : c.Values v w) : v.typeName = w.typeName := by
  cases h <;> rfl

theorem Values.isThunk_eq (h : c.Values v w) : v.isThunk = w.isThunk := by
  cases h <;> rfl

theorem Values.tag?_eq (h : c.Values v w) : v.tag? = w.tag? := by
  rw [Value.tag?, h.operand_eq, Value.tag?]

theorem Lists.map_operand_eq {vs ws : List Value} (h : c.Lists vs ws) :
    vs.map Value.operand = ws.map Value.operand := by
  induction h with
  | nil => rfl
  | cons head _ ih => rw [List.map_cons, List.map_cons, head.operand_eq, ih]

theorem Cells.isDone_eq {cell cell' : Cell} (h : c.Cells cell cell') :
    cell.isDone = cell'.isDone := by
  cases h <;> rfl

theorem Lists.getLast {vs ws : List Value} (h : c.Lists vs ws) :
    c.Values (vs.getLast?.getD .unit) (ws.getLast?.getD .unit) := by
  induction h with
  | nil => exact .scalar .unit
  | cons head tail ih =>
    cases tail with
    | nil => exact head
    | cons => simpa only [List.getLast?_cons_cons] using ih

theorem Contents.register (contents : c.Contents m n) (name : String) :
    Option.Rel c.Values (m.register? name) (n.register? name) := by
  have registers := contents.registers
  unfold Machine.register?
  generalize m.registers = before, n.registers = after at registers
  induction registers with
  | nil => exact .none
  | @cons p q _ _ head _ ih =>
    obtain ⟨bound, value⟩ := p
    obtain ⟨bound', value'⟩ := q
    obtain ⟨rfl, values⟩ := head
    dsimp only [List.lookup_cons]
    split
    · exact .some values
    · exact ih

theorem Lists.equalAll_eq {vs ws vs' ws' : List Value}
    (each : ∀ v ∈ vs, ∀ {w v' w'}, c.Values v w → c.Values v' w' → v.equal v' = w.equal w')
    (h : c.Lists vs ws) (h' : c.Lists vs' ws') :
    Value.equalAll vs vs' = Value.equalAll ws ws' := by
  induction h generalizing vs' ws' with
  | nil =>
    cases h' with
    | nil => rfl
    | cons => rfl
  | cons head _ ih =>
    cases h' with
    | nil => rfl
    | cons head' tail' =>
      rw [Value.equalAll, Value.equalAll, each _ (by simp) head head',
        ih (fun v member => each v (by simp [member])) tail']

/-- Equality cannot tell corresponding values apart. -/
theorem Values.equal_eq (law : c.OneToOne) (h : c.Values v w) (h' : c.Values v' w') :
    v.equal v' = w.equal w' := by
  induction v using Value.nested_induction generalizing w v' w' with
  | data i tag fields ih =>
    cases h with
    | data ids fieldsAlike =>
      cases h' with
      | data ids' fieldsAlike' =>
        have sameId := law.data_iff ids ids'
        rw [Value.equal, Value.equal, Lists.equalAll_eq ih fieldsAlike fieldsAlike']
        grind
      | _ => rfl
  | closure i code scope missing bound =>
    cases h with
    | closure ids =>
      cases h' with
      | closure ids' =>
        have sameId := law.closure_iff ids ids'
        rw [Value.equal, Value.equal]
        grind
      | _ => rfl
  | thunk ref =>
    cases h with
    | thunk places =>
      cases h' with
      | thunk places' =>
        have sameRef := law.thunk_iff places places'
        rw [Value.equal, Value.equal]
        grind
      | _ => rfl
  | _ =>
    cases h
    cases h' <;> rfl

theorem Lists.displayAll_eq {vs ws : List Value}
    (each : ∀ v ∈ vs, ∀ {w}, c.Values v w → m.display v = n.display w) (h : c.Lists vs ws) :
    m.displayAll vs = n.displayAll ws := by
  induction h with
  | nil => rfl
  | cons head _ ih =>
    rw [Machine.displayAll, Machine.displayAll, each _ (by simp) head,
      ih fun v member => each v (by simp [member])]

theorem Contents.display_eq (contents : c.Contents m n) (h : c.Values v w) :
    m.display v = n.display w := by
  induction v using Value.nested_induction generalizing w with
  | data i tag fields ih =>
    cases h with
    | data ids fieldsAlike =>
      have fieldsShown := Lists.displayAll_eq ih fieldsAlike
      cases fieldsAlike with
      | nil => rfl
      | cons =>
        rw [Machine.display, Machine.display, fieldsShown]
        all_goals simp
  | thunk ref =>
    cases h with
    | thunk places =>
      rw [Machine.display, Machine.display, (contents.cell places).isDone_eq]
  | _ =>
    cases h
    rfl

theorem mapM_eq_some_of_forall₂ {α β γ : Type} {R : α → β → Prop} {f : α → Option γ}
    {g : β → Option γ} (each : ∀ a b t, R a b → f a = some t → g b = some t)
    {as : List α} {bs : List β} (h : List.Forall₂ R as bs) {ts : List γ}
    (found : as.mapM f = some ts) : bs.mapM g = some ts := by
  induction h generalizing ts with
  | nil => exact found
  | cons head _ ih =>
    simp only [List.mapM_cons, Option.bind_eq_bind, Option.bind_eq_some_iff] at found ⊢
    obtain ⟨t, first, rest, others, shown⟩ := found
    exact ⟨t, each _ _ t head first, rest, ih others, shown⟩

/-- More fuel does not change what is shown. -/
theorem Contents.debug_eq (contents : c.Contents m n) {fuel fuel' : Nat} (le : fuel ≤ fuel')
    (h : c.Values v w) {text : String} (shown : m.debug fuel v = some text) :
    n.debug fuel' w = some text := by
  induction fuel generalizing fuel' v w text with
  | zero => cases shown
  | succ fuel ih =>
    obtain ⟨fuel', rfl⟩ : ∃ k, fuel' = k + 1 := ⟨fuel' - 1, by omega⟩
    have within (v w : Value) (text : String) (alike : c.Values v w)
        (found : m.debug fuel v = some text) : n.debug fuel' w = some text :=
      ih (Nat.le_of_succ_le_succ le) alike found
    cases h with
    | scalar s => exact shown
    | data ids fields =>
      simp only [Machine.debug, Option.bind_eq_bind, Option.bind_eq_some_iff] at shown ⊢
      obtain ⟨texts, inside, written⟩ := shown
      exact ⟨texts, mapM_eq_some_of_forall₂ within fields inside, written⟩
    | closure ids scope bound =>
      simp only [Machine.debug, Option.bind_eq_bind, Option.bind_eq_some_iff] at shown ⊢
      obtain ⟨texts, inside, written⟩ := shown
      exact ⟨texts, mapM_eq_some_of_forall₂ within bound inside, written⟩
    | @thunk i j places _ =>
      have cells := contents.cell places
      rw [Machine.debug] at shown ⊢
      generalize m.cell i = before at cells shown
      generalize n.cell j = after at cells
      cases cells with
      | done values =>
        simp only [Option.bind_eq_bind, Option.bind_eq_some_iff] at shown ⊢
        obtain ⟨inside, found, written⟩ := shown
        exact ⟨inside, within _ _ _ values found, written⟩
      | _ => exact shown
    | mutVar ref =>
      simp only [Machine.debug, Option.bind_eq_bind, Option.bind_eq_some_iff] at shown ⊢
      obtain ⟨inside, found, written⟩ := shown
      exact ⟨inside, within _ _ _ (contents.mutVar ref) found, written⟩
    | mVar ref =>
      have contents := contents.mVar ref
      rw [Machine.debug] at shown ⊢
      generalize m.mVar ref = before at contents shown
      generalize n.mVar ref = after at contents
      cases contents with
      | some values =>
        simp only [Option.bind_eq_bind, Option.bind_eq_some_iff] at shown ⊢
        obtain ⟨inside, found, written⟩ := shown
        exact ⟨inside, within _ _ _ values found, written⟩
      | none => exact shown

end Observations

/-! Changes that keep machines alike -/

section Arrays

variable {α β : Type} {R : α → β → Prop} {as : Array α} {bs : Array β} {a d : α} {b e : β}
  {i j : Nat} (each : R (as.getD i d) (bs.getD j e)) (new : R a b)
include each new

theorem getD_push_of_related (places : i = as.size ↔ j = bs.size) :
    R ((as.push a).getD i d) ((bs.push b).getD j e) := by
  simp only [Array.getD_eq_getD_getElem?, Array.getElem?_push] at each ⊢
  by_cases last : i = as.size
  · rw [if_pos last, if_pos (places.mp last)]
    exact new
  · rw [if_neg last, if_neg (mt places.mpr last)]
    exact each

theorem getD_set_of_related {p q : Nat} (places : p = i ↔ q = j)
    (present : p < as.size ↔ q < bs.size) :
    R ((as.setIfInBounds p a).getD i d) ((bs.setIfInBounds q b).getD j e) := by
  simp only [Array.getD_eq_getD_getElem?, Array.getElem?_setIfInBounds] at each ⊢
  by_cases same : p = i
  · obtain rfl := same
    obtain rfl := places.mp rfl
    by_cases inside : p < as.size
    · simpa [inside, present.mp inside] using new
    · simpa [inside, mt present.mpr inside] using each
  · rw [if_neg same, if_neg (mt places.mpr same)]
    exact each

end Arrays

namespace Contents

variable {c} {m n : Machine} (h : c.Contents m n)
include h

theorem note {event event' : Event} (events : c.Events event event') :
    c.Contents { m with journal := event :: m.journal } { n with journal := event' :: n.journal } :=
  { h with journal := .cons events h.journal }

theorem newCell (law : c.OneToOne) (new : c.thunk m.thunks.size n.thunks.size)
    {cell cell' : Cell} (cells : c.Cells cell cell') :
    c.Contents { m with thunks := m.thunks.push cell } { n with thunks := n.thunks.push cell' } :=
  { h with
    present := fun places => by
      have old := h.present places
      have last := law.thunk_iff places new
      simp only [Array.size_push]
      omega
    cell := fun places => getD_push_of_related (h.cell places) cells (law.thunk_iff places new) }

theorem setCell (law : c.OneToOne) {i j : Nat} (places : c.thunk i j) {cell cell' : Cell}
    (cells : c.Cells cell cell') : c.Contents (m.setCell i cell) (n.setCell j cell') :=
  { h with
    present := fun places' => by simpa [Machine.setCell] using h.present places'
    cell := fun places' => getD_set_of_related (h.cell places') cells
      (law.thunk_iff places places') (h.present places) }

theorem newMutVar {value value' : Value} (values : c.Values value value') :
    c.Contents { m with mutVars := m.mutVars.push value }
      { n with mutVars := n.mutVars.push value' } :=
  { h with
    mutVars_size := by simp [h.mutVars_size]
    mutVar := fun ref => getD_push_of_related (h.mutVar ref) values (by rw [h.mutVars_size]) }

theorem writeMutVar (ref : Nat) {value value' : Value} (values : c.Values value value') :
    c.Contents { m with mutVars := m.mutVars.setIfInBounds ref value }
      { n with mutVars := n.mutVars.setIfInBounds ref value' } :=
  { h with
    mutVars_size := by simp [h.mutVars_size]
    mutVar := fun other => getD_set_of_related (h.mutVar other) values Iff.rfl
      (by rw [h.mutVars_size]) }

theorem newMVar {content content' : Option Value}
    (contents : Option.Rel c.Values content content') :
    c.Contents { m with mVars := m.mVars.push content }
      { n with mVars := n.mVars.push content' } :=
  { h with
    mVars_size := by simp [h.mVars_size]
    mVar := fun ref => getD_push_of_related (h.mVar ref) contents (by rw [h.mVars_size]) }

theorem setMVar (ref : Nat) {content content' : Option Value}
    (contents : Option.Rel c.Values content content') :
    c.Contents (m.setMVar ref content) (n.setMVar ref content') :=
  { h with
    mVars_size := by simp [Machine.setMVar, h.mVars_size]
    mVar := fun other => getD_set_of_related (h.mVar other) contents Iff.rfl
      (by rw [h.mVars_size]) }

end Contents

end Correspondence

/-- How two runs go side by side: which identities correspond at each stage of the run on the
left, and how the counters compare. -/
structure Alignment where
  Stage : Type
  [order : Preorder Stage]
  /-- The stage at which so many identities and references have been given out. -/
  stage : (data closures thunks : Nat) → Stage
  ids : Stage → Correspondence
  counters : Counters → Counters → Prop
  stage_le : ∀ {i j k l s t}, i ≤ j → k ≤ l → s ≤ t → stage i k s ≤ stage j l t
  mono : ∀ {k l}, k ≤ l → (ids k).Included (ids l)
  oneToOne : ∀ k, (ids k).OneToOne
  held : ∀ {data closures thunks ref}, ref < thunks → (ids (stage data closures thunks)).held ref
  count : ∀ {a b} (update : Counters → Counters), counters a b → counters (update a) (update b)

namespace Alignment

attribute [instance] Alignment.order

variable (A : Alignment)

/-- The stage of a run that has come to this machine. -/
abbrev reached (m : Machine) : A.Stage := A.stage m.nextData m.nextClosure m.thunks.size

abbrev Values (k : A.Stage) : Value → Value → Prop := (A.ids k).Values

abbrev Lists (k : A.Stage) : List Value → List Value → Prop := (A.ids k).Lists

/-- The machines hold the same, and the identities and references that they give out from now
on will correspond. -/
structure Machines (m n : Machine) : Prop where
  contents : (A.ids (A.reached m)).Contents m n
  counters : A.counters m.counters n.counters
  nextData : ∀ k, (A.ids (A.stage (m.nextData + k + 1) m.nextClosure m.thunks.size)).data
    (m.nextData + k) (n.nextData + k)
  nextClosure : ∀ k, (A.ids (A.stage m.nextData (m.nextClosure + k + 1) m.thunks.size)).closure
    (m.nextClosure + k) (n.nextClosure + k)
  nextThunk : ∀ k, (A.ids (A.reached m)).thunk (m.thunks.size + k) (n.thunks.size + k)

namespace Machines

variable {A} {m n : Machine} (h : A.Machines m n)
include h

theorem count (update : Counters → Counters) :
    A.Machines { m with counters := update m.counters } { n with counters := update n.counters } :=
  { h with
    contents := { h.contents with }
    counters := A.count update h.counters }

theorem newData :
    A.Machines { m with nextData := m.nextData + 1 } { n with nextData := n.nextData + 1 } where
  contents :=
    have later := A.mono (A.stage_le (Nat.le_succ m.nextData) le_rfl le_rfl)
    { h.contents.mono later with }
  counters := h.counters
  nextData k := by simpa [Nat.add_assoc, Nat.add_comm 1] using h.nextData (1 + k)
  nextClosure k := (A.mono (A.stage_le (Nat.le_succ _) le_rfl le_rfl)).closure (h.nextClosure k)
  nextThunk k := (A.mono (A.stage_le (Nat.le_succ _) le_rfl le_rfl)).thunk ▸ h.nextThunk k

theorem newClosure :
    A.Machines { m with nextClosure := m.nextClosure + 1 }
      { n with nextClosure := n.nextClosure + 1 } where
  contents :=
    have later := A.mono (A.stage_le le_rfl (Nat.le_succ m.nextClosure) le_rfl)
    { h.contents.mono later with }
  counters := h.counters
  nextData k := (A.mono (A.stage_le le_rfl (Nat.le_succ _) le_rfl)).data (h.nextData k)
  nextClosure k := by simpa [Nat.add_assoc, Nat.add_comm 1] using h.nextClosure (1 + k)
  nextThunk k := (A.mono (A.stage_le le_rfl (Nat.le_succ _) le_rfl)).thunk ▸ h.nextThunk k

theorem newCell {cell cell' : Cell} (cells : (A.ids (A.reached m)).Cells cell cell') :
    A.Machines { m with thunks := m.thunks.push cell }
      { n with thunks := n.thunks.push cell' } := by
  have larger : m.thunks.size ≤ (m.thunks.push cell).size := by simp
  have later {i j : Nat} := A.mono (A.stage_le (le_refl i) (le_refl j) larger)
  constructor
  case contents =>
    exact (h.contents.mono later).newCell (A.oneToOne _) (later.thunk ▸ h.nextThunk 0)
      (cells.mono later.embeds)
  case counters => exact h.counters
  case nextData => exact fun k => later.data (h.nextData k)
  case nextClosure => exact fun k => later.closure (h.nextClosure k)
  case nextThunk =>
    intro k
    simp only [Array.size_push, Nat.add_right_comm _ 1 k]
    exact later.thunk ▸ h.nextThunk (k + 1)

theorem setCell {i j : Nat} (places : (A.ids (A.reached m)).thunk i j) {cell cell' : Cell}
    (cells : (A.ids (A.reached m)).Cells cell cell') :
    A.Machines (m.setCell i cell) (n.setCell j cell') := by
  have contents := h.contents.setCell (A.oneToOne _) places cells
  have size (m : Machine) (ref : Nat) (cell : Cell) :
      (m.setCell ref cell).thunks.size = m.thunks.size := Array.size_setIfInBounds
  constructor
  case contents => rwa [Alignment.reached, size]
  case counters => exact h.counters
  case nextData => rw [size]; exact h.nextData
  case nextClosure => rw [size]; exact h.nextClosure
  case nextThunk => rw [Alignment.reached, size, size]; exact h.nextThunk

/-- A cell that stands for none on the left may hold anything. -/
theorem setCell_right {j : Nat} (free : ∀ i, ¬ (A.ids (A.reached m)).thunk i j) (cell : Cell) :
    A.Machines m (n.setCell j cell) := by
  have size : (n.setCell j cell).thunks.size = n.thunks.size := Array.size_setIfInBounds
  constructor
  case contents =>
    refine { h.contents with present := ?_, cell := ?_ }
    · rw [size]
      exact h.contents.present
    · intro i other places
      have apart : j ≠ other := fun same => free i (same ▸ places)
      rw [Machine.cell_setCell_of_ne _ _ apart]
      exact h.contents.cell places
  case counters => exact h.counters
  case nextData => exact h.nextData
  case nextClosure => exact h.nextClosure
  case nextThunk => rw [size]; exact h.nextThunk

/-- A cell that stands for none on the right may hold anything. -/
theorem setCell_left {i : Nat} (free : ∀ j, ¬ (A.ids (A.reached m)).thunk i j) (cell : Cell) :
    A.Machines (m.setCell i cell) n := by
  have size : (m.setCell i cell).thunks.size = m.thunks.size := Array.size_setIfInBounds
  constructor
  case contents =>
    rw [Alignment.reached, size]
    refine { h.contents with present := ?_, cell := ?_ }
    · rw [size]
      exact h.contents.present
    · intro other j places
      have apart : i ≠ other := fun same => free j (same ▸ places)
      rw [Machine.cell_setCell_of_ne _ _ apart]
      exact h.contents.cell places
  case counters => exact h.counters
  case nextData => rw [size]; exact h.nextData
  case nextClosure => rw [size]; exact h.nextClosure
  case nextThunk => rw [Alignment.reached, size]; exact h.nextThunk

end Machines

end Alignment

end CallByNeed
