import CallByNeed.Proofs.BitPattern
import CallByNeed.Proofs.Truncation
import Mathlib.Algebra.Ring.Parity

set_option autoImplicit false

/-!
How near a number of a format comes to an integer.

A number is faithful to an integer if no number of the format lies between the two, and it
is the nearest one if none is nearer, where of two that are equally near the one whose bits
end in zero counts. An infinity stands where the next number would, one step past the
largest. Rounding gives the nearest number.
-/

namespace CallByNeed

namespace Format

variable {f : Format}

/-- The magnitudes at which numbers stand, in quanta, that of the infinities included. -/
def Holds (f : Format) (g : Nat) : Prop := f.Aligned g ∧ g ≤ 1 <<< f.limit

theorem holds_zero (f : Format) : f.Holds 0 := ⟨f.onGrid_zero.2, Nat.zero_le _⟩

theorem OnGrid.holds {g : Nat} (onGrid : f.OnGrid g) : f.Holds g := ⟨onGrid.2, onGrid.1.le⟩

theorem Holds.onGrid {g : Nat} (holds : f.Holds g) (small : g < 1 <<< f.limit) : f.OnGrid g :=
  ⟨small, holds.1⟩

theorem holds_two_pow {k : Nat} (small : k ≤ f.limit) : f.Holds (2 ^ k) := by
  rw [← Nat.one_shiftLeft]
  refine ⟨f.aligned_shiftLeft ?_, ?_⟩
  · rw [Nat.one_shiftLeft]
    exact Nat.one_le_two_pow
  · rw [Nat.one_shiftLeft, Nat.one_shiftLeft]
    exact Nat.pow_le_pow_right (by decide) small

theorem holds_limit (f : Format) : f.Holds (1 <<< f.limit) := by
  rw [Nat.one_shiftLeft]
  exact holds_two_pow (Nat.le_refl _)

theorem limit_le_units_iff {k n : Nat} (limit : f.limit = k + f.scale) :
    1 <<< f.limit ≤ n * 2 ^ f.scale ↔ 2 ^ k ≤ n := by
  rw [limit, Nat.one_shiftLeft, Nat.pow_add, Nat.mul_le_mul_right_iff (Nat.two_pow_pos _)]

/-! Rounding to the nearest -/

section Round

variable {m g : Nat}

theorem round_one_eq (m : Nat) : f.round m 1 = roundHalfEven m (2 ^ f.gap m) * 2 ^ f.gap m := by
  rw [round, Nat.div_one, Nat.shiftLeft_eq, Nat.one_shiftLeft]

/-- From the spacing at a number it is full significands that are rounded. -/
theorem two_pow_le_div_gap (spaced : f.gap m ≠ 0) : 2 ^ f.fraction ≤ m / 2 ^ f.gap m := by
  have log : m.log2 = f.fraction + f.gap m := by
    unfold gap at spaced ⊢
    omega
  have nonzero : m ≠ 0 := by
    rintro rfl
    simp [gap] at spaced
  rw [Nat.le_div_iff_mul_le (Nat.two_pow_pos _), ← Nat.pow_add, ← log]
  exact Nat.log2_self_le nonzero

theorem div_gap_lt (m : Nat) : m / 2 ^ f.gap m < 2 ^ (f.fraction + 1) := by
  apply Nat.div_lt_of_lt_mul
  rw [← Nat.pow_add]
  refine Nat.lt_of_lt_of_le Nat.lt_log2_self (Nat.pow_le_pow_right (by decide) ?_)
  unfold gap
  omega

/-- Below a number, what is aligned is not above its floor. -/
theorem Aligned.le_floor (aligned : f.Aligned g) (below : g ≤ m) :
    g ≤ m / 2 ^ f.gap m * 2 ^ f.gap m := by
  by_cases same : f.gap m ≤ f.gap g
  · obtain ⟨k, rfl⟩ := aligned.dvd same
    rw [Nat.mul_comm]
    refine Nat.mul_le_mul_right _ ((Nat.le_div_iff_mul_le (Nat.two_pow_pos _)).mpr ?_)
    rwa [Nat.mul_comm]
  · have full : 2 ^ f.fraction * 2 ^ f.gap m ≤ m / 2 ^ f.gap m * 2 ^ f.gap m :=
      Nat.mul_le_mul_right _ (two_pow_le_div_gap (by omega))
    have small : g < 2 ^ (f.fraction + f.gap m) := by
      refine Nat.lt_of_lt_of_le Nat.lt_log2_self (Nat.pow_le_pow_right (by decide) ?_)
      unfold gap at same ⊢
      omega
    rw [Nat.pow_add] at small
    omega

/-- Above a number, what is aligned is not below the next step. -/
theorem Aligned.step_le (aligned : f.Aligned g) (above : m < g) :
    (m / 2 ^ f.gap m + 1) * 2 ^ f.gap m ≤ g := by
  obtain ⟨k, rfl⟩ := aligned.dvd (f.gap_mono above.le)
  rw [Nat.mul_comm _ k] at above ⊢
  exact Nat.mul_le_mul_right _ (Nat.div_lt_of_lt_mul (by rwa [Nat.mul_comm]))

/-- An even significand gives bits that end in zero, also where it carries into the exponent. -/
theorem even_magnitudeBits {k s : Nat} (even : Even k) (narrow : k ≤ 2 ^ (f.fraction + 1))
    (full : s ≠ 0 → 2 ^ f.fraction ≤ k) : Even (Floating.magnitudeBits f (k * 2 ^ s)) := by
  have powers : Even (2 ^ f.fraction) := even_two.pow_of_ne_zero f.fraction_pos.ne'
  rw [Floating.magnitudeBits, Nat.shiftLeft_eq]
  apply (powers.mul_left _).add
  rcases Nat.lt_or_eq_of_le narrow with short | rfl
  · by_cases fine : s = 0
    · rw [fine, Nat.pow_zero, Nat.mul_one, f.gap_of_lt short]
      exact even
    · rw [← Nat.shiftLeft_eq, f.gap_shiftLeft (full fine) short, Nat.shiftLeft_shiftRight]
      exact even
  · have carried : 2 ^ (f.fraction + 1) * 2 ^ s = 2 ^ f.fraction <<< (s + 1) := by
      rw [Nat.shiftLeft_eq, ← Nat.pow_add, ← Nat.pow_add, Nat.add_right_comm, Nat.add_assoc]
    have growing : 2 ^ f.fraction < 2 ^ (f.fraction + 1) :=
      Nat.pow_lt_pow_right (by decide) (Nat.lt_succ_self _)
    rw [carried, f.gap_shiftLeft (Nat.le_refl _) growing, Nat.shiftLeft_shiftRight]
    exact powers

/-- Nothing aligned is nearer than what a number is rounded to, and if something else is as
near, the bits of the latter end in zero. -/
theorem round_nearer (aligned : f.Aligned g) (other : g ≠ f.round m 1) :
    ((m : Int) - f.round m 1).natAbs < ((m : Int) - g).natAbs ∨
      ((m : Int) - f.round m 1).natAbs = ((m : Int) - g).natAbs ∧
        Even (Floating.magnitudeBits f (f.round m 1)) := by
  have outside : g ≤ m / 2 ^ f.gap m * 2 ^ f.gap m ∨
      m / 2 ^ f.gap m * 2 ^ f.gap m + 2 ^ f.gap m ≤ g := by
    rw [← Nat.succ_mul]
    exact (le_or_gt g m).imp aligned.le_floor aligned.step_le
  have whole := Nat.div_add_mod' m (2 ^ f.gap m)
  have rest := Nat.mod_lt m (Nat.two_pow_pos (f.gap m))
  have narrow := f.div_gap_lt m
  have full := f.two_pow_le_div_gap (m := m)
  have spaced (half : 2 * (m % 2 ^ f.gap m) = 2 ^ f.gap m) : f.gap m ≠ 0 := by
    intro fine
    rw [fine] at half
    omega
  by_cases up : 2 ^ f.gap m < 2 * (m % 2 ^ f.gap m) ∨
      (2 * (m % 2 ^ f.gap m) = 2 ^ f.gap m ∧ m / 2 ^ f.gap m % 2 = 1)
  · have rounded : f.round m 1 = (m / 2 ^ f.gap m + 1) * 2 ^ f.gap m := by
      rw [round_one_eq, roundHalfEven, if_pos up]
    have tie (half : 2 * (m % 2 ^ f.gap m) = 2 ^ f.gap m) :
        Even (Floating.magnitudeBits f (f.round m 1)) := by
      rw [rounded]
      refine even_magnitudeBits ?_ narrow fun _ => (full (spaced half)).trans (Nat.le_succ _)
      rw [Nat.even_add_one, Nat.not_even_iff]
      omega
    rw [Nat.succ_mul] at rounded
    refine (Nat.lt_or_eq_of_le ?_).imp_right fun same => ⟨same, tie ?_⟩ <;> omega
  · have rounded : f.round m 1 = m / 2 ^ f.gap m * 2 ^ f.gap m := by
      rw [round_one_eq, roundHalfEven, if_neg up]
    have tie (half : 2 * (m % 2 ^ f.gap m) = 2 ^ f.gap m) :
        Even (Floating.magnitudeBits f (f.round m 1)) := by
      rw [rounded]
      refine even_magnitudeBits ?_ narrow.le fun _ => full (spaced half)
      rw [Nat.even_iff]
      omega
    refine (Nat.lt_or_eq_of_le ?_).imp_right fun same => ⟨same, tie ?_⟩ <;> omega

end Round

/-! Adding from the low end -/

/-- No magnitude that the format holds lies between the two. -/
def Brackets (f : Format) (m p : Nat) : Prop :=
  ∀ g, f.Holds g → (g ≤ m → g ≤ p) ∧ (m ≤ g → p ≤ g)

theorem brackets_zero (f : Format) : f.Brackets 0 0 :=
  fun g _ => ⟨id, fun _ => Nat.zero_le g⟩

/-- What bracketed the low bits brackets all of them once the high bits are added and the
sum is rounded. -/
theorem Brackets.add {m p w k : Nat} (brackets : f.Brackets m p) (low : m < 2 ^ k)
    (small : k ≤ f.limit) (fits : (w + 1) * 2 ^ k ≤ 1 <<< f.limit) :
    f.Brackets (m + w * 2 ^ k) (min (f.round (p + w * 2 ^ k) 1) (1 <<< f.limit)) := by
  rw [Nat.succ_mul] at fits
  have carry := (brackets _ (holds_two_pow small)).2 low.le
  intro g holds
  -- Between two multiples of the power the low bits of what is held are held as well.
  have within (lower : w * 2 ^ k ≤ g) (upper : g < w * 2 ^ k + 2 ^ k) :
      f.Holds (g - w * 2 ^ k) := by
    have rest : g % 2 ^ k = g - w * 2 ^ k := by
      obtain ⟨d, rfl⟩ := Nat.exists_eq_add_of_le lower
      rw [Nat.mul_comm, Nat.mul_add_mod, Nat.add_sub_cancel_left, Nat.mod_eq_of_lt (by omega)]
    rw [← rest]
    exact ((holds.onGrid (by omega)).mod_two_pow k).holds
  constructor
  · intro below
    refine Nat.le_min.mpr ⟨le_round holds.1 Nat.one_pos ?_, holds.2⟩
    by_cases lower : w * 2 ^ k ≤ g
    · have := (brackets _ (within lower (by omega))).1 (by omega)
      omega
    · omega
  · intro above
    refine (Nat.min_le_left _ _).trans (round_le holds.1 ?_)
    by_cases upper : g < w * 2 ^ k + 2 ^ k
    · have := (brackets _ (within (by omega) upper)).2 (by omega)
      omega
    · omega

end Format

namespace Floating

variable {f : Format} {x : Floating f} {n : Int}

/-- No number of the format lies between an integer and this number. -/
def Faithful (n : Int) (x : Floating f) : Prop :=
  ∃ p, x.position = some p ∧ ∀ (y : Floating f) (r : Int), y.position = some r →
    (r ≤ n * 2 ^ f.scale → r ≤ p) ∧ (n * 2 ^ f.scale ≤ r → p ≤ r)

/-- All other numbers of the format are farther from an integer, or as far if the bits of
this one end in zero. -/
def Nearest (n : Int) (x : Floating f) : Prop :=
  ∃ p, x.position = some p ∧ ∀ (y : Floating f) (r : Int), y.position = some r → r ≠ p →
    (n * 2 ^ f.scale - p).natAbs < (n * 2 ^ f.scale - r).natAbs ∨
      (n * 2 ^ f.scale - p).natAbs = (n * 2 ^ f.scale - r).natAbs ∧ Even x.toBits

/-! Signs -/

@[simp] theorem even_toBits_neg : Even (-x).toBits ↔ Even x.toBits := by
  have sign (s : Bool) (rest : Nat) :
      Even ((if s then 1 <<< (f.fraction + f.exponent) else 0) + rest) ↔ Even rest := by
    have even : Even (1 <<< (f.fraction + f.exponent)) := by
      rw [Nat.one_shiftLeft]
      exact even_two.pow_of_ne_zero (by have := f.fraction_pos; omega)
    cases s <;> simp [Nat.even_add, even]
  cases x with
  | nan s payload h =>
    show Even (_ + _ + _) ↔ Even (_ + _ + _)
    rw [Nat.add_assoc, Nat.add_assoc]
    exact (sign (!s) _).trans (sign s _).symm
  | infinite s => exact (sign (!s) _).trans (sign s _).symm
  | finite s quanta h => exact (sign (!s) _).trans (sign s _).symm

theorem Faithful.neg (faithful : Faithful n x) : Faithful (-n) (-x) := by
  obtain ⟨p, position, bounds⟩ := faithful
  refine ⟨-p, by rw [position_neg, position]; rfl, fun y r place => ?_⟩
  have := bounds (-y) (-r) (by rw [position_neg, place]; rfl)
  rw [Int.neg_mul]
  omega

theorem Nearest.neg (nearest : Nearest n x) : Nearest (-n) (-x) := by
  obtain ⟨p, position, others⟩ := nearest
  refine ⟨-p, by rw [position_neg, position]; rfl, fun y r place other => ?_⟩
  have flip (t : Int) : (-n * 2 ^ f.scale - t).natAbs = (n * 2 ^ f.scale - -t).natAbs := by
    rw [Int.neg_mul]
    omega
  rw [flip, flip, Int.neg_neg, even_toBits_neg]
  exact others (-y) (-r) (by rw [position_neg, place]; rfl) (by omega)

/-! Numbers that are not negative -/

/-- The number is not negative, and stands at this magnitude. -/
def StandsAt (x : Floating f) (p : Nat) : Prop := x.isNegative = false ∧ x.position = some (p : Int)

theorem exists_holds {r : Int} (place : x.position = some r) :
    ∃ g, f.Holds g ∧ (r = g ∨ r = -g) := by
  have either (s : Bool) (g : Nat) : signed s g = g ∨ signed s g = -g := by
    cases s <;> simp
  cases x with
  | nan => cases place
  | infinite s =>
    obtain rfl := Option.some.inj place
    exact ⟨_, f.holds_limit, either s _⟩
  | finite s g onGrid =>
    obtain rfl := Option.some.inj place
    exact ⟨g, onGrid.holds, either s g⟩

theorem standsAt_ofQuanta (num den : Nat) :
    (ofQuanta false num den : Floating f).StandsAt (min (f.round num den) (1 <<< f.limit)) := by
  unfold ofQuanta
  split
  · next finite =>
    rw [Nat.min_eq_left finite.le]
    exact ⟨rfl, rfl⟩
  · next large =>
    rw [Nat.min_eq_right (Nat.le_of_not_lt large)]
    exact ⟨rfl, rfl⟩

theorem StandsAt.eq_infinite (stands : x.StandsAt (1 <<< f.limit)) : x = .infinite false := by
  obtain ⟨sign, position⟩ := stands
  cases x with
  | nan => cases position
  | infinite s => rw [show s = false from sign]
  | finite s n onGrid =>
    obtain rfl : s = false := sign
    have : n = 1 <<< f.limit := Int.ofNat_inj.mp (Option.some.inj position)
    exact absurd onGrid.1 this.not_lt

theorem StandsAt.eq_finite {p : Nat} (stands : x.StandsAt p) (small : p < 1 <<< f.limit) :
    ∃ onGrid, x = .finite false p onGrid := by
  obtain ⟨sign, position⟩ := stands
  cases x with
  | nan => cases position
  | infinite s =>
    obtain rfl : s = false := sign
    have : 1 <<< f.limit = p := Int.ofNat_inj.mp (Option.some.inj position)
    exact absurd small this.not_gt
  | finite s n onGrid =>
    obtain rfl : s = false := sign
    obtain rfl : n = p := Int.ofNat_inj.mp (Option.some.inj position)
    exact ⟨onGrid, rfl⟩

/-- The number is not negative, and no magnitude lies between it and an integer. -/
def Approximates (x : Floating f) (n : Nat) : Prop :=
  ∃ p, x.StandsAt p ∧ f.Brackets (n * 2 ^ f.scale) p

theorem approximates_infinite {n : Nat} (large : 1 <<< f.limit ≤ n * 2 ^ f.scale) :
    (.infinite false : Floating f).Approximates n :=
  ⟨_, ⟨rfl, rfl⟩, fun _ holds => ⟨fun _ => holds.2, large.trans⟩⟩

theorem Approximates.position_ne_none {n : Nat} (near : x.Approximates n) :
    x.position ≠ none := by
  obtain ⟨p, stands, -⟩ := near
  rw [stands.2]
  exact Option.some_ne_none _

theorem Approximates.faithful {n : Nat} (near : x.Approximates n) : Faithful n x := by
  obtain ⟨p, stands, brackets⟩ := near
  refine ⟨p, stands.2, fun y r place => ?_⟩
  obtain ⟨g, holds, rfl | rfl⟩ := exists_holds place
  · have := brackets g holds
    exact_mod_cast this
  · have := (brackets 0 f.holds_zero).2
    have units : (n : Int) * 2 ^ f.scale = (n * 2 ^ f.scale : Nat) := by norm_cast
    omega

/-- What the format holds is approximated by itself only. -/
theorem Approximates.isNat {n : Nat} (near : x.Approximates n) (onGrid : f.OnGrid (n <<< f.scale)) :
    x.IsNat n := by
  obtain ⟨p, stands, brackets⟩ := near
  rw [← Nat.shiftLeft_eq] at brackets
  have bounds := brackets _ onGrid.holds
  obtain rfl := Nat.le_antisymm (bounds.2 (Nat.le_refl _)) (bounds.1 (Nat.le_refl _))
  exact stands.eq_finite onGrid.1

theorem Approximates.eq_infinite {n : Nat} (near : x.Approximates n)
    (large : 1 <<< f.limit ≤ n * 2 ^ f.scale) : x = .infinite false := by
  obtain ⟨p, stands, brackets⟩ := near
  obtain ⟨g, holds, same⟩ := exists_holds stands.2
  have above := (brackets _ f.holds_limit).1 large
  have below := holds.2
  obtain rfl : p = 1 <<< f.limit := by omega
  exact stands.eq_infinite

theorem even_infinityBits (f : Format) : Even (infinityBits f) := by
  rw [infinityBits, Nat.shiftLeft_eq]
  exact (even_two.pow_of_ne_zero f.fraction_pos.ne').mul_left _

theorem toBits_ofQuanta (num den : Nat) : (ofQuanta false num den : Floating f).toBits =
    if f.round num den < 1 <<< f.limit then magnitudeBits f (f.round num den)
    else infinityBits f := by
  unfold ofQuanta
  split <;> exact Nat.zero_add _

theorem ofQuanta_nearer {m g : Nat} (holds : f.Holds g)
    (other : g ≠ min (f.round m 1) (1 <<< f.limit)) :
    ((m : Int) - (min (f.round m 1) (1 <<< f.limit) : Nat)).natAbs < ((m : Int) - g).natAbs ∨
      ((m : Int) - (min (f.round m 1) (1 <<< f.limit) : Nat)).natAbs = ((m : Int) - g).natAbs ∧
        Even (ofQuanta false m 1 : Floating f).toBits := by
  rw [toBits_ofQuanta]
  split
  · next finite =>
    rw [Nat.min_eq_left finite.le] at other ⊢
    exact Format.round_nearer holds.1 other
  · next large =>
    have tight (below : m ≤ 1 <<< f.limit) : f.round m 1 = 1 <<< f.limit :=
      Nat.le_antisymm (Format.round_le f.holds_limit.1 (by omega)) (Nat.le_of_not_lt large)
    rw [Nat.min_eq_right (Nat.le_of_not_lt large)] at other ⊢
    have bound := holds.2
    rcases le_or_gt m (1 <<< f.limit) with below | above
    · have nearer := Format.round_nearer (m := m) holds.1 (by rwa [tight below])
      rw [tight below] at nearer
      exact nearer.imp_right fun same => ⟨same.1, even_infinityBits f⟩
    · omega

/-- Rounding gives the nearest number. -/
theorem nearest_ofQuanta (n : Nat) :
    Nearest n (ofQuanta false (n * 2 ^ f.scale) 1 : Floating f) := by
  refine ⟨_, (standsAt_ofQuanta _ 1).2, fun y r place other => ?_⟩
  have units : (n : Int) * 2 ^ f.scale = (n * 2 ^ f.scale : Nat) := by norm_cast
  rw [units]
  obtain ⟨g, holds, rfl | rfl⟩ := exists_holds place
  · exact ofQuanta_nearer holds (by exact_mod_cast other)
  · -- Zero is nearer than what is below it.
    by_cases zero : 0 = min (f.round (n * 2 ^ f.scale) 1) (1 <<< f.limit)
    · rw [← zero] at other ⊢
      left
      omega
    · have := ofQuanta_nearer f.holds_zero zero
      by_cases same : g = 0
      · rw [same]
        exact this
      · left
        omega

/-! Exact values -/

theorem signed_of_value {s : Bool} {g : Nat} {onGrid : f.OnGrid g}
    (exact : (.finite s g onGrid : Floating f).value = some (n : ℚ)) :
    signed s g = n * 2 ^ f.scale := by
  have quotient : (signed s g : ℚ) / 2 ^ f.scale = n := Option.some.inj exact
  rw [div_eq_iff (by positivity)] at quotient
  exact_mod_cast quotient

theorem quanta_of_value_zero {s : Bool} {g : Nat} {onGrid : f.OnGrid g}
    (exact : (.finite s g onGrid : Floating f).value = some ((0 : Int) : ℚ)) : g = 0 := by
  have zero := signed_of_value exact
  rw [Int.zero_mul] at zero
  cases s with
  | false => exact Int.ofNat_eq_zero.mp zero
  | true => exact Int.ofNat_eq_zero.mp (neg_eq_zero.mp zero)

@[simp] theorem toBits_zero (s : Bool) {onGrid : f.OnGrid 0} :
    (.finite s 0 onGrid : Floating f).toBits = if s then 2 ^ (f.fraction + f.exponent) else 0 := by
  simp [toBits, magnitudeBits, isNegative, Format.gap, Nat.one_shiftLeft]

theorem onGrid_of_value (exact : x.value = some (n : ℚ)) :
    f.OnGrid (n.natAbs <<< f.scale) := by
  cases x with
  | nan => cases exact
  | infinite => cases exact
  | finite s g onGrid =>
    have magnitude := natAbs_signed s g
    rw [signed_of_value exact, Int.natAbs_mul, Int.natAbs_pow] at magnitude
    rw [Nat.shiftLeft_eq]
    exact magnitude ▸ onGrid

@[simp] theorem value_neg : (-x).value = x.value.map (- ·) := by
  cases x with
  | nan => rfl
  | infinite => rfl
  | finite s g onGrid =>
    show some ((signed (!s) g : ℚ) / 2 ^ f.scale) = some (-((signed s g : ℚ) / 2 ^ f.scale))
    rw [signed_not, Int.cast_neg, neg_div]

theorem IsNat.value {k : Nat} (h : x.IsNat k) : x.value = some (k : ℚ) := by
  obtain ⟨onGrid, rfl⟩ := h
  show some (((k <<< f.scale : Nat) : ℤ) / 2 ^ f.scale : ℚ) = some (k : ℚ)
  rw [Nat.shiftLeft_eq]
  push_cast
  rw [mul_div_cancel_right₀ _ (by positivity)]

/-- Only the zeros have one value twice. -/
theorem eq_of_value {y : Floating f} {q : ℚ} (exact : x.value = some q) (exact' : y.value = some q)
    (nonzero : q ≠ 0) : x = y := by
  cases x with
  | nan => cases exact
  | infinite => cases exact
  | finite s g onGrid =>
    cases y with
    | nan => cases exact'
    | infinite => cases exact'
    | finite s' g' onGrid' =>
      have same : (signed s g : ℚ) / 2 ^ f.scale = signed s' g' / 2 ^ f.scale :=
        Option.some.inj (exact.trans exact'.symm)
      rw [div_left_inj' (by positivity), Int.cast_inj] at same
      have proper : signed s g ≠ 0 := by
        intro zero
        apply nonzero
        rw [← Option.some.inj exact, zero]
        simp
      have positive : 0 < g' := by
        rw [same] at proper
        cases s' <;> simpa [Nat.pos_iff_ne_zero] using proper
      obtain ⟨rfl, rfl⟩ := signed_inj same positive
      rfl

end Floating

end CallByNeed
