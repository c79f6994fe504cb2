import CallByNeed.Proofs.Flatness
import CallByNeed.Proofs.Renaming

set_option autoImplicit false

/-!
Arguments may be given at once or in two parts.

Applying a value to some arguments and its result to the rest does what applying
it to all of them does: the same bodies are entered with the same arguments, and
the machines end alike. What differs is that the first part may make a closure
to hold its arguments, so that later closures get other identities, and the
counters. This needs that forcing gives no thunk, or else the first part would
stop at a thunk that the second then opens.
-/

namespace CallByNeed

open Correspondence

theorem Correspondence.Contents.flat {data closure : Nat → Nat → Prop} {m n : Machine}
    (h : Contents { data, closure } m n) (flat : m.Flat) : n.Flat := by
  intro ref value done
  have cells := h.cell (Eq.refl ref)
  rw [done] at cells
  generalize holding : m.cell ref = cell at cells
  cases cells with
  | done values => rw [← values.isThunk_eq, flat ref _ holding]

/-! Application by the number of arguments -/

namespace Eval

variable (run : Runner) (id : Nat) (code : Code) (scope : Scope) {missing : Nat}
  (bound : List Value) {args xs ys : List Value}

theorem applyForced_exact (h : args.length = missing) :
    applyForced run (.closure id code scope missing bound) args =
      (count (fun c => { c with exactCalls := c.exactCalls + 1 }) >>= fun _ =>
        enter run code scope (bound ++ args)) := by
  rw [applyForced, if_pos h]

theorem applyForced_nil (h : missing ≠ 0) :
    applyForced run (.closure id code scope missing bound) [] =
      pure (.closure id code scope missing bound) := by
  rw [applyForced, if_neg (by simpa using h.symm), if_pos List.isEmpty_nil]

theorem applyForced_partial (nonempty : args ≠ []) (h : args.length < missing) :
    applyForced run (.closure id code scope missing bound) args =
      (count (fun c => { c with partialApplications := c.partialApplications + 1 }) >>= fun _ =>
        newClosure code scope (missing - args.length) (bound ++ args)) := by
  rw [applyForced, if_neg (Nat.ne_of_lt h), if_neg (by simpa using nonempty), if_pos h]

theorem applyForced_over (h : missing < args.length) :
    applyForced run (.closure id code scope missing bound) args =
      (count (fun c => { c with overApplications := c.overApplications + 1 }) >>= fun _ =>
        enter run code scope (bound ++ args.take missing) >>= fun result =>
          run (.apply result (args.drop missing))) := by
  have nonempty : args ≠ [] := by
    rintro rfl
    simp at h
  rw [applyForced, if_neg (Nat.ne_of_gt h), if_neg (by simpa using nonempty),
    if_neg (Nat.not_lt.mpr (Nat.le_of_lt h))]

/-- A closure that holds some arguments goes on as one that gets them with the others. -/
theorem applyForced_bound (id' : Nat) (h : xs.length < missing) (nonempty : ys ≠ []) :
    applyForced run (.closure id' code scope (missing - xs.length) (bound ++ xs)) ys =
      applyForced run (.closure id code scope missing bound) (xs ++ ys) := by
  have nonempty' : xs ++ ys ≠ [] := by simp [nonempty]
  have count : (xs ++ ys).length = xs.length + ys.length := List.length_append
  rcases Nat.lt_trichotomy ys.length (missing - xs.length) with fewer | equal | more
  · rw [applyForced_partial _ _ _ _ _ nonempty fewer,
      applyForced_partial _ _ _ _ _ nonempty' (by omega), List.append_assoc, count,
      Nat.sub_sub]
  · rw [applyForced_exact _ _ _ _ _ equal, applyForced_exact _ _ _ _ _ (by omega),
      List.append_assoc]
  · rw [applyForced_over _ _ _ _ _ more, applyForced_over _ _ _ _ _ (by omega),
      List.take_append, List.drop_append, List.take_of_length_le (Nat.le_of_lt h),
      List.drop_of_length_le (Nat.le_of_lt h), List.append_assoc, List.nil_append]

end Eval

/-! Runs that end alike -/

/-- Both runs end with the same value or the same error, and the machines hold the same.
The identities of closures from some place on, all given out since `start`, may be moved
by one. -/
def SameEnd (start : Machine) (outcome : Except Error Value) (m : Machine)
    (outcome' : Except Error Value) (n : Machine) : Prop :=
  ∃ first distance, start.nextClosure ≤ first ∧ distance ≤ 1 ∧
    Outcomes ((Alignment.ahead first distance).Values m.nextClosure) outcome outcome' ∧
    (Alignment.ahead first distance).Machines m n

theorem SameEnd.weaken {start start' m n : Machine} {outcome outcome' : Except Error Value}
    (h : SameEnd start' outcome m outcome' n) (le : start.nextClosure ≤ start'.nextClosure) :
    SameEnd start outcome m outcome' n := by
  obtain ⟨first, distance, since, rest⟩ := h
  exact ⟨first, distance, Nat.le_trans le since, rest⟩

theorem SameEnd.refl (m : Machine) (outcome : Except Error Value) {start : Machine} :
    SameEnd start outcome m outcome m := by
  have law : ((Alignment.ahead start.nextClosure 0).ids m.nextClosure).Reflexive := by
    refine ⟨fun _ => rfl, fun i => ?_, rfl, fun _ => trivial, ⟨rfl, rfl⟩⟩
    show i = if i < start.nextClosure then i else i
    simp
  refine ⟨start.nextClosure, 0, Nat.le_refl _, Nat.zero_le _, ?_, .refl law m, trivial,
    fun _ => rfl, fun k => law.closure _, fun _ => rfl⟩
  cases outcome with
  | ok value => exact .ok (.refl law value)
  | error e => exact .error e

/-- Up to this fuel, and as long as forcing gives no thunk, what ends on either side ends
on the other too. On the right the fuel of the second part is apart. -/
def Matches (fuel : Nat) (m : Machine) (x : Nat → Eval Value) (y : Nat → Nat → Eval Value) : Prop :=
  (∀ outcome m', (x fuel).Ends m outcome m' → m'.Flat →
    ∃ outcome' n, Completes (fun more => y more more) m outcome' n ∧
      SameEnd m outcome m' outcome' n) ∧
  ∀ more outcome' n, (y more fuel).Ends m outcome' n → n.Flat →
    ∃ outcome m', Completes x m outcome m' ∧ m'.Flat

/-- A common first part. -/
theorem Matches.bind {fuel : Nat} {m : Machine} {first : Nat → Eval Value}
    {x : Value → Nat → Eval Value} {y : Value → Nat → Nat → Eval Value}
    (rises : Rises first) (risesLeft : ∀ value, Rises (x value))
    (risesRight : ∀ value, Rises fun more => y value more more)
    (effectsLeft : ∀ value, (x value fuel).Effects)
    (effectsRight : ∀ value more, (y value more fuel).Effects)
    (step : ∀ value between, (first fuel).Ends m (.ok value) between → between.Flat →
      m.nextClosure ≤ between.nextClosure ∧ Matches fuel between (x value) (y value)) :
    Matches fuel m (fun fuel => first fuel >>= fun value => x value fuel)
      (fun more fuel => first fuel >>= fun value => y value more fuel) := by
  constructor
  · intro outcome m' ended flat
    rcases Eval.ends_bind.mp ended with ⟨e, failed, rfl⟩ | ⟨value, between, done, rest⟩
    · exact ⟨.error e, m', ⟨fuel, failed.bind_error⟩, .refl m' _⟩
    · obtain ⟨grown, ahead, -⟩ :=
        step value between done (flat.of_effect (effectsLeft value _ _ _ rest))
      obtain ⟨outcome', n, ⟨more, ended'⟩, same⟩ := ahead outcome m' rest flat
      refine ⟨outcome', n, ⟨max fuel more, ?_⟩, same.weaken grown⟩
      exact (rises (Nat.le_max_left _ _) done).bind
        (risesRight value (Nat.le_max_right _ _) ended')
  · intro more outcome' n ended flat
    rcases Eval.ends_bind.mp ended with ⟨e, failed, rfl⟩ | ⟨value, between, done, rest⟩
    · exact ⟨.error e, n, ⟨fuel, failed.bind_error⟩, flat⟩
    · obtain ⟨-, -, back⟩ :=
        step value between done (flat.of_effect (effectsRight value more _ _ _ rest))
      obtain ⟨outcome, m', ⟨enough, ended'⟩, flat'⟩ := back more outcome' n rest flat
      refine ⟨outcome, m', ⟨max fuel enough, ?_⟩, flat'⟩
      exact (rises (Nat.le_max_left _ _) done).bind (risesLeft value (Nat.le_max_right _ _) ended')

theorem rises_enter (code : Code) (scope : Scope) (args : List Value) :
    Rises fun fuel => Eval.enter (run fuel) code scope args := by
  intro fuel fuel' m outcome m' le ended
  exact (Eval.simulates_enter (fun _ _ _ => run_simulates .same le) code
    (Scopes.refl reflexive_equal scope) (Lists.refl reflexive_equal args)).ends_same ended

theorem rises_applyForced (callee : Value) (args : List Value) :
    Rises fun fuel => Eval.applyForced (run fuel) callee args := by
  intro fuel fuel' m outcome m' le ended
  exact (Eval.simulates_applyForced (fun _ _ _ => run_simulates .same le)
    (Values.refl reflexive_equal callee) (Lists.refl reflexive_equal args)).ends_same ended

section Plain

variable (callee : Value) (plain : callee.isThunk = false) {args : List Value} {m m' : Machine}
  {outcome : Except Error Value} {fuel : Nat}
include plain

theorem run_apply_of_not_thunk (fuel : Nat) :
    run (fuel + 2) (.apply callee args) = Eval.applyForced (run (fuel + 1)) callee args := by
  cases callee with
  | thunk => cases plain
  | _ => rfl

theorem completes_apply (ended : (Eval.applyForced (run fuel) callee args).Ends m outcome m') :
    Completes (fun fuel => run fuel (.apply callee args)) m outcome m' := by
  refine ⟨fuel + 2, ?_⟩
  show (run (fuel + 2) _).Ends _ _ _
  rw [run_apply_of_not_thunk callee plain]
  exact rises_applyForced callee args (Nat.le_succ fuel) ended

theorem completes_applyForced (ended : (run fuel (.apply callee args)).Ends m outcome m') :
    Completes (fun fuel => Eval.applyForced (run fuel) callee args) m outcome m' := by
  have later := run_mono (Nat.le_add_right fuel 2) ended
  rw [run_apply_of_not_thunk callee plain] at later
  exact ⟨fuel + 1, later⟩

end Plain

/-! The first part stops before another body is entered -/

/-- The computation uses nothing that `m` does not know, so that it goes alike wherever
known values correspond to themselves. -/
def Steady (m : Machine) (z : Eval.Runner → Eval Value) : Prop :=
  ∀ (A : Alignment) (k : A.Stage), (Alignment.known.ids m.nextClosure).Included (A.ids k) →
    ∀ {fuel fuel' : Nat}, fuel ≤ fuel' → Eval.Simulates A k A.Values (z (run fuel)) (z (run fuel'))

theorem matches_of_skip {m : Machine} (formed : m.WellFormed) {z : Eval.Runner → Eval Value}
    (steady : Steady m z) (counters counters' : Counters) {distance : Nat} (le : distance ≤ 1)
    {x : Nat → Eval Value} {y : Nat → Nat → Eval Value}
    (left : ∀ fuel outcome m', (x fuel).Ends m outcome m' ↔
      (z (run fuel)).Ends (m.skip counters 0) outcome m')
    (right : ∀ fuel outcome n, (z (run fuel)).Ends (m.skip counters' distance) outcome n →
      Completes (fun more => y more more) m outcome n)
    (right' : ∀ more fuel outcome n, (y more fuel).Ends m outcome n →
      Completes (fun fuel => z (run fuel)) (m.skip counters' distance) outcome n) (fuel : Nat) :
    Matches fuel m x y := by
  have formed' : (m.skip counters 0).WellFormed := { formed with }
  constructor
  · intro outcome m' ended flat
    obtain ⟨-, outcome', n, ended', outcomes, machines⟩ :=
      steady (.ahead m.nextClosure distance) _ (Alignment.known_included_ahead _ distance _)
        (Nat.le_refl fuel) (Nat.le_refl _) (formed'.skip_ahead counters' distance)
        ((left fuel outcome m').mp ended)
    exact ⟨outcome', n, right fuel outcome' n ended', m.nextClosure, distance, Nat.le_refl _, le,
      outcomes, machines⟩
  · intro more outcome' n ended flat
    obtain ⟨enough, ended'⟩ := right' more fuel outcome' n ended
    obtain ⟨-, outcome, m', ended'', -, machines⟩ :=
      steady (.back m.nextClosure distance) _ (Alignment.known_included_back _ distance _)
        (Nat.le_refl enough) (Nat.le_refl _) (formed'.skip_back counters' distance) ended'
    exact ⟨outcome, m', ⟨enough, (left enough outcome m').mpr ended''⟩, machines.contents.flat flat⟩

section Split

variable {m : Machine} (formed : m.WellFormed) {xs ys : List Value}

/-- A forced value is applied to the first arguments and the result to the others. -/
def applyForcedTwice (callee : Value) (xs ys : List Value) (more fuel : Nat) : Eval Value :=
  Eval.applyForced (run fuel) callee xs >>= fun result => run more (.apply result ys)

theorem steady_applyForced {callee : Value} {args : List Value} (known : m.Knows callee)
    (knownArgs : Alignment.known.Lists m.nextClosure args args) :
    Steady m fun run => Eval.applyForced run callee args :=
  fun A _ included _ _ le => Eval.simulates_applyForced (fun _ _ _ => run_simulates A le)
    (known.mono included) (Lists.mono included knownArgs)

include formed

/-- The first arguments make no difference to the callee. -/
theorem matches_of_unchanged {callee : Value} (plain : callee.isThunk = false)
    (known : m.Knows callee) (knownArgs : Alignment.known.Lists m.nextClosure (xs ++ ys) (xs ++ ys))
    (unchanged : ∀ run, Eval.applyForced run callee xs = pure callee)
    (same : ∀ run, Eval.applyForced run callee (xs ++ ys) = Eval.applyForced run callee ys)
    (fuel : Nat) :
    Matches fuel m (fun fuel => Eval.applyForced (run fuel) callee (xs ++ ys))
      (applyForcedTwice callee xs ys) := by
  refine matches_of_skip formed (steady_applyForced known knownArgs) m.counters m.counters
    (Nat.zero_le 1) (fun _ _ _ => Iff.rfl) ?_ ?_ fuel
  · intro fuel outcome n ended
    rw [same] at ended
    obtain ⟨more, ended'⟩ := completes_apply callee plain ended
    refine ⟨more, ?_⟩
    simp only [applyForcedTwice, unchanged, pure_bind]
    exact ended'
  · intro more fuel outcome n ended
    simp only [applyForcedTwice, unchanged, pure_bind] at ended
    simp only [same]
    exact completes_applyForced callee plain ended

variable {id missing : Nat} {code : Code} {scope : Scope} {bound : List Value}

theorem matches_of_exact (nonempty : ys ≠ [])
    (known : m.Knows (.closure id code scope xs.length bound))
    (knownArgs : Alignment.known.Lists m.nextClosure xs xs)
    (knownRest : Alignment.known.Lists m.nextClosure ys ys) (fuel : Nat) :
    Matches fuel m
      (fun fuel => Eval.applyForced (run fuel) (.closure id code scope xs.length bound) (xs ++ ys))
      (applyForcedTwice (.closure id code scope xs.length bound) xs ys) := by
  have more : xs.length < (xs ++ ys).length := by
    simpa [List.length_pos_iff] using nonempty
  have steady : Steady m fun run => Eval.enter run code scope (bound ++ xs) >>= fun result =>
      run (.apply result ys) := by
    intro A k included fuel fuel' le
    cases known with
    | closure _ scopes bounds =>
      refine (Eval.simulates_enter (fun _ _ _ => run_simulates A le) code
        (Scopes.mono included scopes)
        (Lists.mono included (List.rel_append bounds knownArgs))).bind fun l le' _ _ results => ?_
      have rest : A.Lists l ys ys := Lists.mono (A.mono le') (Lists.mono included.embeds knownRest)
      exact run_simulates A le (.apply results rest)
  refine matches_of_skip formed steady
    { m.counters with overApplications := m.counters.overApplications + 1 }
    { m.counters with exactCalls := m.counters.exactCalls + 1 } (Nat.zero_le 1) ?_ ?_ ?_ fuel
  · intro fuel outcome m'
    rw [Eval.applyForced_over _ _ _ _ _ more, List.take_left, List.drop_left]
    exact Iff.rfl
  · intro fuel outcome n ended
    refine ⟨fuel, ?_⟩
    simp only [applyForcedTwice, Eval.applyForced_exact _ _ _ _ _ rfl, bind_assoc]
    exact ended
  · intro more fuel outcome n ended
    simp only [applyForcedTwice, Eval.applyForced_exact _ _ _ _ _ rfl, bind_assoc] at ended
    refine ⟨max fuel more, ?_⟩
    rcases Eval.ends_bind.mp (Eval.ends_modify_bind.mp ended) with
      ⟨e, failed, rfl⟩ | ⟨result, between, done, rest⟩
    · exact (rises_enter _ _ _ (Nat.le_max_left _ _) failed).bind_error
    · exact (rises_enter _ _ _ (Nat.le_max_left _ _) done).bind
        (run_mono (Nat.le_max_right _ _) rest)

theorem matches_of_partial (some : xs ≠ []) (fewer : xs.length < missing) (nonempty : ys ≠ [])
    (known : m.Knows (.closure id code scope missing bound))
    (knownArgs : Alignment.known.Lists m.nextClosure (xs ++ ys) (xs ++ ys)) (fuel : Nat) :
    Matches fuel m
      (fun fuel => Eval.applyForced (run fuel) (.closure id code scope missing bound) (xs ++ ys))
      (applyForcedTwice (.closure id code scope missing bound) xs ys) := by
  let kept : Value := .closure m.nextClosure code scope (missing - xs.length) (bound ++ xs)
  refine matches_of_skip formed (steady_applyForced known knownArgs) m.counters
    { m.counters with
      closures := m.counters.closures + 1
      partialApplications := m.counters.partialApplications + 1 } (Nat.le_refl 1)
    (fun _ _ _ => Iff.rfl) ?_ ?_ fuel
  · intro fuel outcome n ended
    rw [← Eval.applyForced_bound _ id code scope bound m.nextClosure fewer nonempty] at ended
    obtain ⟨more, ended'⟩ := completes_apply kept rfl ended
    refine ⟨more, ?_⟩
    simp only [applyForcedTwice, Eval.applyForced_partial _ _ _ _ _ some fewer]
    exact ended'
  · intro more fuel outcome n ended
    simp only [applyForcedTwice, Eval.applyForced_partial _ _ _ _ _ some fewer] at ended
    have ended' : (run more (.apply kept ys)).Ends _ outcome n := ended
    simp only [← Eval.applyForced_bound _ id code scope bound m.nextClosure fewer nonempty]
    exact completes_applyForced kept rfl ended'

end Split

/-! The first part goes on with the result of a body -/

/-- A value is applied to the first arguments and the result to the others. -/
def applyTwice (callee : Value) (xs ys : List Value) (more fuel : Nat) : Eval Value :=
  run fuel (.apply callee xs) >>= fun result => run more (.apply result ys)

theorem rises_applyTwice (callee : Value) (xs ys : List Value) :
    Rises fun fuel => applyTwice callee xs ys fuel fuel :=
  (rises_run (.apply callee xs)).bind fun result => rises_run (.apply result ys)

theorem effects_applyTwice (callee : Value) (xs ys : List Value) (more fuel : Nat) :
    (applyTwice callee xs ys more fuel).Effects :=
  (run_effects fuel _).bind fun _ => run_effects more _

/-- Up to this fuel it makes no difference that the last arguments come later. -/
def Splits (ys : List Value) (fuel : Nat) : Prop :=
  ∀ {m callee xs}, m.WellFormed → m.Knows callee →
    Alignment.known.Lists m.nextClosure xs xs → Alignment.known.Lists m.nextClosure ys ys →
    Matches fuel m (fun fuel => run fuel (.apply callee (xs ++ ys))) (applyTwice callee xs ys)

theorem matches_of_over {fuel missing id : Nat} {m : Machine} {code : Code} {scope : Scope}
    {bound xs ys : List Value} (splits : Splits ys fuel) (formed : m.WellFormed)
    (fewer : missing < xs.length) (known : m.Knows (.closure id code scope missing bound))
    (knownArgs : Alignment.known.Lists m.nextClosure xs xs)
    (knownRest : Alignment.known.Lists m.nextClosure ys ys) :
    Matches fuel m
      (fun fuel => Eval.applyForced (run fuel) (.closure id code scope missing bound) (xs ++ ys))
      (applyForcedTwice (.closure id code scope missing bound) xs ys) := by
  let first (fuel : Nat) : Eval Value :=
    Eval.count (fun c => { c with overApplications := c.overApplications + 1 }) >>= fun _ =>
      Eval.enter (run fuel) code scope (bound ++ xs.take missing)
  have left : (fun fuel => Eval.applyForced (run fuel) (.closure id code scope missing bound)
      (xs ++ ys)) = fun fuel => first fuel >>= fun result =>
        run fuel (.apply result (xs.drop missing ++ ys)) := by
    funext fuel
    rw [Eval.applyForced_over _ _ _ _ _ (by simp; omega),
      List.take_append_of_le_length (Nat.le_of_lt fewer),
      List.drop_append_of_le_length (Nat.le_of_lt fewer), bind_assoc]
  have right : applyForcedTwice (.closure id code scope missing bound) xs ys = fun more fuel =>
      first fuel >>= fun result => applyTwice result (xs.drop missing) ys more fuel := by
    funext more fuel
    simp only [applyForcedTwice, applyTwice, first, Eval.applyForced_over _ _ _ _ _ fewer,
      bind_assoc]
  have rises : Rises first := by
    intro fuel fuel' m outcome m' le ended
    exact rises_enter _ _ _ le (Eval.ends_modify_bind.mp ended)
  rw [left, right]
  refine Matches.bind rises (fun _ => rises_run _) (fun _ => rises_applyTwice _ _ _)
    (fun _ => run_effects _ _) (fun _ _ => effects_applyTwice _ _ _ _ _) ?_
  intro result between ended flat
  have keeps :
      Eval.Simulates .known m.nextClosure (Alignment.Values .known) (first fuel) (first fuel) := by
    cases known with
    | closure _ scopes bounds =>
      refine (Eval.simulates_count _).bind fun _ le _ _ _ => ?_
      exact Eval.simulates_enter (fun _ _ _ => run_simulates .known (Nat.le_refl fuel)) code
        (Scopes.mono (Alignment.known.mono le) scopes) (Lists.mono (Alignment.known.mono le)
          (List.rel_append bounds (List.forall₂_take missing knownArgs)))
  obtain ⟨grown, formed', knownResult⟩ := keeps.wellFormed formed ended
  refine ⟨grown, splits formed' (knownResult result rfl) ?_ ?_⟩
  · exact Lists.mono (Alignment.known.mono grown) (List.forall₂_drop missing knownArgs)
  · exact Lists.mono (Alignment.known.mono grown) knownRest

theorem matches_applyForced {fuel : Nat} {m : Machine} {callee : Value} {xs ys : List Value}
    (splits : Splits ys fuel) (formed : m.WellFormed) (plain : callee.isThunk = false)
    (known : m.Knows callee) (knownArgs : Alignment.known.Lists m.nextClosure xs xs)
    (knownRest : Alignment.known.Lists m.nextClosure ys ys) (nonempty : ys ≠ []) :
    Matches fuel m (fun fuel => Eval.applyForced (run fuel) callee (xs ++ ys))
      (applyForcedTwice callee xs ys) := by
  have knownAll := List.rel_append knownArgs knownRest
  cases callee with
  | closure id code scope missing bound =>
    rcases Nat.lt_trichotomy xs.length missing with fewer | rfl | more
    · by_cases none : xs = []
      · subst none
        have waits : missing ≠ 0 := Nat.ne_of_gt fewer
        exact matches_of_unchanged formed rfl known knownAll
          (fun _ => Eval.applyForced_nil _ _ _ _ _ waits) (fun _ => rfl) fuel
      · exact matches_of_partial formed none fewer nonempty known knownAll fuel
    · exact matches_of_exact formed nonempty known knownArgs knownRest fuel
    · exact matches_of_over splits formed more known knownArgs knownRest
  | thunk => cases plain
  | _ => exact matches_of_unchanged formed plain known knownAll (fun _ => rfl) (fun _ => rfl) fuel

/-- The induction is on the fuel, which over-application spends on each body it enters. -/
theorem splits {ys : List Value} (nonempty : ys ≠ []) (fuel : Nat) : Splits ys fuel := by
  induction fuel with
  | zero =>
    intro m callee xs _ _ _ _
    constructor
    · intro outcome m' ended
      exact absurd ended Eval.not_ends_outOfFuel
    · intro more outcome n ended
      rcases Eval.ends_bind.mp ended with ⟨_, failed, -⟩ | ⟨_, _, done, -⟩
      · exact absurd failed Eval.not_ends_outOfFuel
      · exact absurd done Eval.not_ends_outOfFuel
  | succ fuel ih =>
    intro m callee xs formed known knownArgs knownRest
    have forced : Matches fuel m
        (fun fuel => run fuel (.force callee) >>= fun value =>
          Eval.applyForced (run fuel) value (xs ++ ys))
        (fun more fuel => run fuel (.force callee) >>= fun value =>
          applyForcedTwice value xs ys more fuel) := by
      refine Matches.bind (rises_run _) (fun value => rises_applyForced value _)
        (fun value => (rises_applyForced value xs).bind fun _ => rises_run _)
        (fun value => Eval.effects_applyForced (run_effects fuel) value _)
        (fun value more => (Eval.effects_applyForced (run_effects fuel) value xs).bind
          fun _ => run_effects more _) ?_
      intro value between ended flat
      have keeps := run_simulates .known (Nat.le_refl fuel) (.force known)
      obtain ⟨grown, formed', knownValue⟩ := keeps.wellFormed formed ended
      refine ⟨grown, matches_applyForced ih formed' (flat.force_isThunk ended)
        (knownValue value rfl) ?_ ?_ nonempty⟩
      · exact Lists.mono (Alignment.known.mono grown) knownArgs
      · exact Lists.mono (Alignment.known.mono grown) knownRest
    have unfolds (more fuel : Nat) : applyTwice callee xs ys more (fuel + 1) =
        run fuel (.force callee) >>= fun value => applyForcedTwice value xs ys more fuel :=
      bind_assoc _ _ _
    constructor
    · intro outcome m' ended flat
      obtain ⟨outcome', n, ⟨more, ended'⟩, same⟩ := forced.1 outcome m' ended flat
      refine ⟨outcome', n, ⟨more + 1, ?_⟩, same⟩
      have twice : (applyTwice callee xs ys more (more + 1)).Ends m outcome' n := by
        rw [unfolds]
        exact ended'
      rcases Eval.ends_bind.mp twice with ⟨e, failed, rfl⟩ | ⟨result, between, done, rest⟩
      · exact failed.bind_error
      · exact done.bind (run_mono (Nat.le_succ more) rest)
    · intro more outcome' n ended flat
      rw [unfolds] at ended
      obtain ⟨outcome, m', ⟨enough, ended'⟩, flat'⟩ := forced.2 more outcome' n ended flat
      exact ⟨outcome, m', ⟨enough + 1, ended'⟩, flat'⟩

/-- As long as no evaluated cell holds a thunk, arguments may be split anywhere: one side
ends if and only if the other does, with the same outcome and in machines that are alike
up to counters and new identities. Every machine that a program reaches is well formed, by
`Program.Reached.wellFormed`. -/
theorem apply_append_ends_alike {m : Machine} {callee : Value} {xs ys : List Value}
    (formed : m.WellFormed) (known : ∀ value ∈ callee :: (xs ++ ys), m.Knows value)
    (nonempty : ys ≠ []) :
    (∀ outcome m', Completes (fun fuel => run fuel (.apply callee (xs ++ ys))) m outcome m' →
      m'.Flat → ∃ outcome' n,
        Completes (fun fuel => applyTwice callee xs ys fuel fuel) m outcome' n ∧ n.Flat ∧
        SameEnd m outcome m' outcome' n) ∧
    (∀ outcome' n, Completes (fun fuel => applyTwice callee xs ys fuel fuel) m outcome' n →
      n.Flat → ∃ outcome m',
        Completes (fun fuel => run fuel (.apply callee (xs ++ ys))) m outcome m' ∧ m'.Flat ∧
        SameEnd m outcome m' outcome' n) := by
  have knownArgs : Alignment.known.Lists m.nextClosure xs xs :=
    List.forall₂_same.mpr fun value member => known value (by simp [member])
  have knownRest : Alignment.known.Lists m.nextClosure ys ys :=
    List.forall₂_same.mpr fun value member => known value (by simp [member])
  have alike (fuel : Nat) :=
    splits nonempty fuel formed (known callee (by simp)) knownArgs knownRest
  have ahead (outcome : Except Error Value) (m' : Machine)
      (once : Completes (fun fuel => run fuel (.apply callee (xs ++ ys))) m outcome m')
      (flat : m'.Flat) : ∃ outcome' n,
        Completes (fun fuel => applyTwice callee xs ys fuel fuel) m outcome' n ∧ n.Flat ∧
          SameEnd m outcome m' outcome' n := by
    obtain ⟨fuel, ended⟩ := once
    obtain ⟨outcome', n, twice, same⟩ := (alike fuel).1 outcome m' ended flat
    have flat' : n.Flat := by
      obtain ⟨_, _, -, -, -, machines⟩ := same
      exact machines.contents.flat flat
    exact ⟨outcome', n, twice, flat', same⟩
  refine ⟨ahead, ?_⟩
  rintro outcome' n ⟨fuel, ended⟩ flat
  obtain ⟨outcome, m', once, flat'⟩ := (alike fuel).2 fuel outcome' n ended flat
  obtain ⟨outcome'', n', ⟨fuel', ended'⟩, -, same⟩ := ahead outcome m' once flat'
  -- There is only one way to end, so the end found here is the given one.
  have rises := rises_applyTwice callee xs ys
  obtain ⟨rfl, rfl⟩ := (rises (Nat.le_max_left fuel fuel') ended).unique
    (rises (Nat.le_max_right fuel fuel') ended')
  exact ⟨outcome, m', once, flat', same⟩

/-- The function that returns the first of its two arguments gets one argument, itself, and
then three more. The first part makes a closure, and the second enters two bodies. -/
theorem apply_append_ends_alike_partial :
    ∃ (m m' : Machine) (first : Value), first = .closure 0 ⟨2, none, .arg 0 0⟩ [] 2 [] ∧
      m.WellFormed ∧ m.Knows first ∧ m'.Flat ∧
      Completes (fun fuel => run fuel (.apply first ([first] ++ [.unit, .char 'a', .unit])))
        m (.ok (.char 'a')) m' ∧
      ∃ outcome' n, Completes
          (fun fuel => applyTwice first [first] [.unit, .char 'a', .unit] fuel fuel) m outcome' n ∧
        n.Flat ∧ SameEnd m (.ok (.char 'a')) m' outcome' n := by
  let first : Value := .closure 0 ⟨2, none, .arg 0 0⟩ [] 2 []
  let m : Machine := { nextClosure := 1 }
  let m' : Machine :=
    { nextClosure := 1
      counters := { exactCalls := 1, overApplications := 1 }
      journal := [.enter ⟨2, none, .arg 0 0⟩ [.char 'a', .unit],
        .enter ⟨2, none, .arg 0 0⟩ [first, .unit]] }
  have formed : m.WellFormed :=
    { Machine.wellFormed_empty.mono (Alignment.known.mono (Nat.zero_le 1)) with }
  have known : m.Knows first := .closure ⟨rfl, Nat.zero_lt_one⟩ .nil .nil
  have flat : m'.Flat := by
    intro ref value done
    simp [m', Machine.cell] at done
  have once : Completes (fun fuel => run fuel (.apply first ([first] ++ [.unit, .char 'a', .unit])))
      m (.ok (.char 'a')) m' := ⟨5, rfl⟩
  have all (value : Value) (member : value ∈ first :: ([first] ++ [.unit, .char 'a', .unit])) :
      m.Knows value := by
    simp only [List.cons_append, List.nil_append, List.mem_cons, List.not_mem_nil, or_false]
      at member
    rcases member with rfl | rfl | rfl | rfl | rfl
    · exact known
    · exact known
    all_goals exact .scalar _
  exact ⟨m, m', first, rfl, formed, known, flat, once,
    (apply_append_ends_alike formed all (by simp)).1 _ _ once flat⟩

end CallByNeed
