import CallByNeed.Integer.OfDouble
import Mathlib.Algebra.Ring.Nat

set_option autoImplicit false

/-!
Exact results and bounds of rounding.

A magnitude on the grid is rounded to itself, and rounding never crosses one. So
an operation whose exact result is on the grid gives that result, and bounds by
numbers on the grid survive rounding.
-/

namespace CallByNeed

theorem roundHalfEven_le_of_le {num den bound : Nat} (h : num ≤ bound * den) :
    roundHalfEven num den ≤ bound := by
  have quotient : num / den ≤ bound := Nat.div_le_of_le_mul (by rwa [Nat.mul_comm])
  have whole := Nat.div_add_mod num den
  simp only [roundHalfEven]
  split
  · next up =>
    -- A quotient equal to the bound leaves no remainder, and is not rounded up.
    apply Nat.lt_of_le_of_ne quotient
    intro same
    rw [same, Nat.mul_comm] at whole
    have : num % den = 0 := by omega
    rcases up with above | ⟨half, odd⟩
    · omega
    · have : den = 0 := by omega
      simp [this] at odd
  · exact quotient

theorem le_roundHalfEven {num den bound : Nat} (positive : 0 < den) (h : bound * den ≤ num) :
    bound ≤ roundHalfEven num den := by
  have quotient : bound ≤ num / den := (Nat.le_div_iff_mul_le positive).mpr h
  simp only [roundHalfEven]
  split <;> omega

theorem roundHalfEven_of_lt {num den : Nat} (h : 2 * (num % den) < den) :
    roundHalfEven num den = num / den := by
  simp only [roundHalfEven]
  rw [if_neg (by omega)]

namespace Format

variable (f : Format)

theorem gap_mono {m n : Nat} (h : m ≤ n) : f.gap m ≤ f.gap n := by
  have : m.log2 ≤ n.log2 := by
    by_cases zero : m = 0
    · simp [zero]
    · exact (Nat.le_log2 (by omega)).mpr (Nat.le_trans (Nat.log2_self_le zero) h)
  unfold gap
  omega

variable {f}

theorem Aligned.dvd {n k : Nat} (aligned : f.Aligned n) (h : k ≤ f.gap n) : 2 ^ k ∣ n :=
  Nat.dvd_trans (Nat.pow_dvd_pow 2 h) ((f.aligned_iff n).mp aligned)

theorem round_le {num den bound : Nat} (aligned : f.Aligned bound) (h : num ≤ bound * den) :
    f.round num den ≤ bound := by
  have below : num / den ≤ bound := Nat.div_le_of_le_mul (by rwa [Nat.mul_comm])
  obtain ⟨k, rfl⟩ := aligned.dvd (f.gap_mono below)
  simp only [round, Nat.shiftLeft_eq]
  rw [Nat.mul_comm]
  refine Nat.mul_le_mul_left _ (roundHalfEven_le_of_le (Nat.le_trans h (Nat.le_of_eq ?_)))
  ac_rfl

theorem le_round {num den bound : Nat} (aligned : f.Aligned bound) (positive : 0 < den)
    (h : bound * den ≤ num) : bound ≤ f.round num den := by
  have above : bound ≤ num / den := (Nat.le_div_iff_mul_le positive).mpr h
  have spaced : 0 < den * 2 ^ f.gap (num / den) :=
    Nat.mul_pos positive (Nat.two_pow_pos _)
  simp only [round, Nat.shiftLeft_eq]
  by_cases same : f.gap (num / den) ≤ f.gap bound
  · obtain ⟨k, split⟩ := aligned.dvd same
    have scaled : k * (den * 2 ^ f.gap (num / den)) ≤ num := by
      refine Nat.le_trans (Nat.le_of_eq ?_) h
      rw [split]
      ac_rfl
    rw [split, Nat.mul_comm]
    exact Nat.mul_le_mul_right _ (le_roundHalfEven spaced scaled)
  · -- The spacing grew, so a power of two lies between the bound and the number.
    have grown : f.gap bound < f.gap (num / den) := Nat.lt_of_not_le same
    have log : (num / den).log2 = f.fraction + f.gap (num / den) := by unfold gap at grown ⊢; omega
    have nonzero : num / den ≠ 0 := by
      intro zero
      simp [zero, gap] at grown
    have power : 2 ^ (f.fraction + f.gap (num / den)) ≤ num / den := by
      rw [← log]
      exact Nat.log2_self_le nonzero
    have smaller : bound < 2 ^ (f.fraction + f.gap (num / den)) := by
      by_cases zero : bound = 0
      · rw [zero]
        exact Nat.two_pow_pos _
      · rw [← Nat.log2_lt zero]
        unfold gap at grown ⊢
        omega
    have scaled : 2 ^ f.fraction * (den * 2 ^ f.gap (num / den)) ≤ num := by
      refine Nat.le_trans (Nat.le_of_eq ?_) ((Nat.le_div_iff_mul_le positive).mp power)
      rw [Nat.pow_add]
      ac_rfl
    refine Nat.le_trans (Nat.le_of_lt smaller) ?_
    rw [Nat.pow_add]
    exact Nat.mul_le_mul_right _ (le_roundHalfEven spaced scaled)

theorem round_mul {n den : Nat} (aligned : f.Aligned n) (positive : 0 < den) :
    f.round (n * den) den = n :=
  Nat.le_antisymm (round_le aligned (Nat.le_refl _)) (le_round aligned positive (Nat.le_refl _))

/-- Up to the next number of the format the spacing stays the same. -/
theorem Aligned.gap_add {n d : Nat} (aligned : f.Aligned n) (small : d < 2 ^ f.gap n) :
    f.gap (n + d) = f.gap n := by
  refine Nat.le_antisymm ?_ (f.gap_mono (Nat.le_add_right n d))
  by_cases zero : n + d = 0
  · rw [zero]
    unfold gap
    simp
  · have spacing : f.gap n ≤ n.log2 + 1 := by unfold gap; omega
    have room : n + 2 ^ f.gap n ≤ 2 ^ (n.log2 + 1) := by
      obtain ⟨k, split⟩ := aligned.dvd (Nat.le_refl _)
      obtain ⟨l, power⟩ := Nat.pow_dvd_pow 2 spacing
      have below : n < 2 ^ (n.log2 + 1) := Nat.lt_log2_self
      rw [power] at below ⊢
      have : k < l := by
        apply Nat.lt_of_mul_lt_mul_left (a := 2 ^ f.gap n)
        rwa [← split]
      calc n + 2 ^ f.gap n = 2 ^ f.gap n * (k + 1) := by rw [Nat.mul_succ, ← split]
        _ ≤ 2 ^ f.gap n * l := Nat.mul_le_mul_left _ this
    have log : (n + d).log2 < n.log2 + 1 := (Nat.log2_lt zero).mpr (by omega)
    unfold gap
    omega

/-- What is added to a number is lost if it is less than half the spacing there. -/
theorem Aligned.round_add {n d : Nat} (aligned : f.Aligned n) (small : 2 * d < 2 ^ f.gap n) :
    f.round (n + d) 1 = n := by
  have spacing := aligned.gap_add (by omega : d < 2 ^ f.gap n)
  have rest : (n + d) % 2 ^ f.gap n = d := by
    rw [Nat.add_mod, Nat.mod_eq_zero_of_dvd (aligned.dvd (Nat.le_refl _)), Nat.zero_add,
      Nat.mod_mod, Nat.mod_eq_of_lt (by omega)]
  have whole := Nat.div_add_mod (n + d) (2 ^ f.gap n)
  simp only [round, Nat.div_one, spacing, Nat.shiftLeft_eq, Nat.one_mul]
  rw [roundHalfEven_of_lt (by rwa [rest]), Nat.mul_comm]
  omega

/-- Close below a large power of two, numbers are so far apart that a one is lost between
them. -/
theorem round_add_unit_lt {n e : Nat} (aligned : f.Aligned n) (wide : f.fraction + 2 ≤ e)
    (below : n < 2 ^ (e + 1) <<< f.scale) :
    f.round (n + 1 <<< f.scale) 1 < 2 ^ (e + 1) <<< f.scale := by
  have unit := Nat.two_pow_pos f.scale
  by_cases close : 2 ^ e <<< f.scale ≤ n
  · have spacing : f.scale + 2 ≤ f.gap n := by
      rw [Nat.shiftLeft_eq, ← Nat.pow_add] at close
      have power := Nat.two_pow_pos (e + f.scale)
      have log : e + f.scale ≤ n.log2 := (Nat.le_log2 (by omega)).mpr close
      unfold gap
      omega
    have half : 2 * 1 <<< f.scale < 2 ^ f.gap n := by
      refine Nat.lt_of_lt_of_le ?_ (Nat.pow_le_pow_right (by decide) spacing)
      rw [Nat.one_shiftLeft, Nat.pow_add]
      omega
    rwa [aligned.round_add half]
  · obtain ⟨d, rfl⟩ : ∃ d, e = d + 1 := ⟨e - 1, by omega⟩
    have narrow : 3 ≤ 1 <<< (f.fraction + 1) := by
      have := Nat.pow_le_pow_right (n := 2) (by decide) (Nat.succ_le_succ f.fraction_pos)
      rw [Nat.one_shiftLeft]
      omega
    have double (k : Nat) : 2 ^ (k + 1) <<< f.scale = 2 * 2 ^ k <<< f.scale := by
      rw [Nat.shiftLeft_eq, Nat.shiftLeft_eq, Nat.pow_succ, Nat.mul_comm _ 2, Nat.mul_assoc]
    have triple : 3 <<< (d + f.scale) = 3 * 2 ^ d <<< f.scale := by
      rw [Nat.shiftLeft_eq, Nat.shiftLeft_eq, Nat.pow_add]
    have whole : 1 <<< f.scale ≤ 2 ^ d <<< f.scale := by
      rw [Nat.shiftLeft_eq, Nat.shiftLeft_eq]
      exact Nat.mul_le_mul_right _ Nat.one_le_two_pow
    have rounded : n + 1 <<< f.scale ≤ 3 <<< (d + f.scale) * 1 →
        f.round (n + 1 <<< f.scale) 1 ≤ 3 <<< (d + f.scale) :=
      round_le (f.aligned_shiftLeft narrow)
    rw [← Nat.one_shiftLeft] at unit
    rw [double] at close below
    rw [triple] at rounded
    rw [double, double]
    generalize 2 ^ d <<< f.scale = half, 1 <<< f.scale = one at *
    omega

/-- A significand of at most the format's width is on the grid, shifted or not. -/
theorem onGrid_shiftLeft {k s w : Nat} (narrow : k ≤ 2 ^ w) (width : w ≤ 53)
    (small : w + s < Format.double.limit) : Format.double.OnGrid (k <<< s) := by
  constructor
  · rw [Nat.shiftLeft_eq, Nat.one_shiftLeft]
    calc k * 2 ^ s ≤ 2 ^ w * 2 ^ s := Nat.mul_le_mul_right _ narrow
      _ = 2 ^ (w + s) := (Nat.pow_add ..).symm
      _ < 2 ^ Format.double.limit := Nat.pow_lt_pow_right (by decide) small
  · apply aligned_shiftLeft
    rw [Nat.one_shiftLeft]
    exact Nat.le_trans narrow (Nat.pow_le_pow_right (by decide) width)

theorem onGrid_units {k s w : Nat} (narrow : k ≤ 2 ^ w) (width : w ≤ 53) (small : w + s < 1024) :
    Format.double.OnGrid (k <<< s <<< Format.double.scale) := by
  rw [← Nat.shiftLeft_add]
  apply onGrid_shiftLeft narrow width
  show w + (s + 1074) < 2098
  omega

theorem onGrid_two_pow {e : Nat} (small : e < 1024) :
    Format.double.OnGrid (2 ^ e <<< Format.double.scale) := by
  rw [← Nat.one_shiftLeft]
  exact onGrid_units (w := 0) (Nat.le_refl 1) (by decide) (by omega)

theorem onGrid_nat {n : Nat} (small : n ≤ 2 ^ 53) :
    Format.double.OnGrid (n <<< Format.double.scale) :=
  onGrid_units (s := 0) small (Nat.le_refl 53) (by decide)

end Format

namespace Floating

section Exact

variable {f : Format}

theorem ofQuanta_eq {negative : Bool} {num den n : Nat} (positive : 0 < den)
    (exact : num = n * den) (onGrid : f.OnGrid n) :
    (ofQuanta negative num den : Floating f) = .finite negative n onGrid := by
  have rounded : f.round num den = n := by rw [exact, Format.round_mul onGrid.2 positive]
  simp [ofQuanta, rounded, onGrid.1]

theorem ofQuanta_eq_infinite {negative : Bool} {num den n : Nat} (positive : 0 < den)
    (exact : num = n * den) (aligned : f.Aligned n) (large : 1 <<< f.limit ≤ n) :
    (ofQuanta negative num den : Floating f) = .infinite negative := by
  have rounded : f.round num den = n := by rw [exact, Format.round_mul aligned positive]
  rw [ofQuanta, dif_neg (by rw [rounded]; exact Nat.not_lt.mpr large)]

@[simp] theorem finite_mul_finite {s t : Bool} {m n : Nat} {hm : f.OnGrid m} {hn : f.OnGrid n} :
    (.finite s m hm : Floating f) * .finite t n hn = ofQuanta (s != t) (m * n) (1 <<< f.scale) :=
  rfl

@[simp] theorem finite_div_finite {s t : Bool} {m n : Nat} {hm : f.OnGrid m} {hn : f.OnGrid n}
    (nonzero : n ≠ 0) :
    (.finite s m hm : Floating f) / .finite t n hn = ofQuanta (s != t) (m <<< f.scale) n :=
  if_neg nonzero

@[simp] theorem finite_mod_finite {s t : Bool} {m n : Nat} {hm : f.OnGrid m} {hn : f.OnGrid n}
    (nonzero : n ≠ 0) :
    (.finite s m hm : Floating f) % .finite t n hn = ofQuanta s (m % n) 1 :=
  if_neg nonzero

@[simp] theorem finite_add_finite {m n : Nat} {hm : f.OnGrid m} {hn : f.OnGrid n} :
    (.finite false m hm : Floating f) + .finite false n hn = ofQuanta false (m + n) 1 := by
  show (if signed false m + signed false n = 0 then _ else _) = _
  simp only [signed_false]
  split
  · next none =>
    rw [show m + n = 0 by omega]
    exact (ofQuanta_eq (by decide) rfl f.onGrid_zero).symm
  · rw [decide_eq_false (by omega)]
    congr 1

@[simp] theorem finite_sub_finite {m n : Nat} {hm : f.OnGrid m} {hn : f.OnGrid n} (order : n ≤ m) :
    (.finite false m hm : Floating f) - .finite false n hn = ofQuanta false (m - n) 1 := by
  show (if signed false m + signed true n = 0 then _ else _) = _
  simp only [signed_false, Bool.not_false, signed_true]
  split
  · next none =>
    rw [show m - n = 0 by omega]
    exact (ofQuanta_eq (by decide) rfl f.onGrid_zero).symm
  · rw [decide_eq_false (by omega)]
    congr 1
    omega

@[simp]
theorem neg_finite_add_finite {m n : Nat} {hm : f.OnGrid m} {hn : f.OnGrid n} (order : m < n) :
    (.finite true m hm : Floating f) + .finite false n hn = ofQuanta false (n - m) 1 := by
  show (if signed true m + signed false n = 0 then _ else _) = _
  simp only [signed_false, signed_true]
  rw [if_neg (by omega), decide_eq_false (by omega)]
  congr 1
  omega

@[simp] theorem infinite_le_finite {n : Nat} {hn : f.OnGrid n} :
    (.infinite false : Floating f).le (.finite false n hn) = false := by
  have bound := hn.1
  show decide (((1 <<< f.limit : Nat) : Int) ≤ n) = false
  exact decide_eq_false (by omega)

@[simp] theorem toInt_finite {m : Nat} {hm : f.OnGrid m} :
    (.finite false m hm : Floating f).toInt = (m >>> f.scale : Nat) :=
  rfl

theorem toInt_ofQuanta {num den : Nat} (finite : f.round num den < 1 <<< f.limit) :
    (ofQuanta false num den : Floating f).toInt = (f.round num den >>> f.scale : Nat) := by
  rw [ofQuanta, dif_pos finite]
  rfl

theorem units_pos {n : Nat} (positive : 0 < n) : 0 < n <<< f.scale := by
  rw [Nat.shiftLeft_eq]
  exact Nat.mul_pos positive (Nat.two_pow_pos _)

theorem scale_pos : 0 < 1 <<< f.scale := units_pos (by decide)

/-- The number is not negative, and this many units. -/
def IsNat (x : Floating f) (n : Nat) : Prop :=
  ∃ onGrid, x = .finite false (n <<< f.scale) onGrid

theorem IsNat.toInt {x : Floating f} {n : Nat} (h : x.IsNat n) : x.toInt = n := by
  obtain ⟨onGrid, rfl⟩ := h
  simp [Floating.toInt, Nat.shiftLeft_shiftRight]

@[simp] theorem units_lt_units_iff {m n : Nat} : m <<< f.scale < n <<< f.scale ↔ m < n := by
  rw [Nat.shiftLeft_eq, Nat.shiftLeft_eq, Nat.mul_lt_mul_right (Nat.two_pow_pos _)]

theorem shiftLeft_mono {m n s : Nat} (h : m ≤ n) : m <<< s ≤ n <<< s := by
  rw [Nat.shiftLeft_eq, Nat.shiftLeft_eq]
  exact Nat.mul_le_mul_right _ h

/-- Whole numbers on the grid are spaced by what their leading bits leave. -/
theorem IsNat.dvd {x : Floating f} {k : Nat} (h : x.IsNat k) : 2 ^ (k.log2 - f.fraction) ∣ k := by
  obtain ⟨onGrid, -⟩ := h
  by_cases zero : k = 0
  · simp [zero]
  have large : 2 ^ (k.log2 + f.scale) ≤ k <<< f.scale := by
    rw [Nat.pow_add, Nat.shiftLeft_eq]
    exact Nat.mul_le_mul_right _ (Nat.log2_self_le zero)
  have log : k.log2 + f.scale ≤ (k <<< f.scale).log2 :=
    (Nat.le_log2 (Nat.ne_of_gt (units_pos (Nat.pos_of_ne_zero zero)))).mpr large
  by_cases fine : k.log2 ≤ f.fraction
  · rw [Nat.sub_eq_zero_of_le fine]
    exact Nat.one_dvd k
  · have spaced : k.log2 - f.fraction + f.scale ≤ f.gap (k <<< f.scale) := by
      unfold Format.gap
      omega
    have dvd := onGrid.2.dvd spaced
    rw [Nat.pow_add, Nat.shiftLeft_eq] at dvd
    exact Nat.dvd_of_mul_dvd_mul_right (Nat.two_pow_pos _) dvd

theorem IsNat.le_finite {x : Floating f} {m n : Nat} {s : Bool} {hn : f.OnGrid n}
    (h : x.IsNat m) :
    x.le (.finite s n hn) = true ↔ ((m <<< f.scale : Nat) : Int) ≤ signed s n := by
  obtain ⟨-, rfl⟩ := h
  exact decide_eq_true_iff

theorem IsNat.finite_lt {x : Floating f} {m n : Nat} (h : x.IsNat n) (s : Bool)
    (hm : f.OnGrid m) :
    (.finite s m hm : Floating f).lt x = true ↔ signed s m < (n <<< f.scale : Nat) := by
  obtain ⟨-, rfl⟩ := h
  exact decide_eq_true_iff

theorem IsNat.lt_iff {x y : Floating f} {m n : Nat} (hx : x.IsNat m) (hy : y.IsNat n) :
    x.lt y = true ↔ m < n := by
  obtain ⟨_, rfl⟩ := hx
  rw [hy.finite_lt, ← units_lt_units_iff (f := f)]
  exact Int.ofNat_lt

theorem IsNat.max {x y : Floating f} {m n : Nat} (hx : x.IsNat m) (hy : y.IsNat n) :
    (x.max y).IsNat (Max.max m n) := by
  have less := hx.lt_iff hy
  have proper {z : Floating f} {k : Nat} (h : z.IsNat k) : z.position.isNone = false := by
    obtain ⟨-, rfl⟩ := h
    rfl
  unfold Floating.max
  rw [proper hx, proper hy, if_neg Bool.false_ne_true, if_neg Bool.false_ne_true]
  split
  · next below => rwa [Nat.max_eq_right (Nat.le_of_lt (less.mp below))]
  · next above => rwa [Nat.max_eq_left (Nat.le_of_not_lt (mt less.mpr above))]

theorem IsNat.le_ofQuanta {x : Floating f} {m num den : Nat} (h : x.IsNat m) :
    x.le (ofQuanta false num den) = true ↔ m <<< f.scale ≤ f.round num den := by
  unfold ofQuanta
  split
  · exact h.le_finite.trans Int.ofNat_le
  · next large =>
    obtain ⟨onGrid, rfl⟩ := h
    have bound := onGrid.1
    have order : ((m <<< f.scale : Nat) : Int) ≤ (1 <<< f.limit : Nat) := by omega
    constructor
    · intro _
      omega
    · intro _
      exact decide_eq_true order

theorem IsNat.finite_le_neg {x : Floating f} {k n : Nat} (h : x.IsNat k) (positive : 0 < k)
    (hn : f.OnGrid n) : (.finite false n hn : Floating f).le (-x) = false := by
  obtain ⟨onGrid, rfl⟩ := h
  have units : 0 < k <<< f.scale := units_pos positive
  have order : ¬ (n : Int) ≤ -(k <<< f.scale : Nat) := by omega
  exact decide_eq_false order

theorem IsNat.mul {x y : Floating f} {m n : Nat} (hx : x.IsNat m) (hy : y.IsNat n)
    (onGrid : f.OnGrid ((m * n) <<< f.scale)) : (x * y).IsNat (m * n) := by
  obtain ⟨-, rfl⟩ := hx
  obtain ⟨-, rfl⟩ := hy
  refine ⟨onGrid, ofQuanta_eq scale_pos ?_ onGrid⟩
  simp only [Nat.shiftLeft_eq, Nat.one_mul]
  ac_rfl

theorem IsNat.add_eq {x y : Floating f} {m n : Nat} (hx : x.IsNat m) (hy : y.IsNat n) :
    x + y = ofQuanta false ((m + n) <<< f.scale) 1 := by
  obtain ⟨-, rfl⟩ := hx
  obtain ⟨-, rfl⟩ := hy
  rw [finite_add_finite]
  simp only [Nat.shiftLeft_eq, Nat.add_mul]

theorem IsNat.add {x y : Floating f} {m n : Nat} (hx : x.IsNat m) (hy : y.IsNat n)
    (onGrid : f.OnGrid ((m + n) <<< f.scale)) : (x + y).IsNat (m + n) :=
  ⟨onGrid, by rw [hx.add_eq hy, ofQuanta_eq (by decide) (Nat.mul_one _).symm onGrid]⟩

theorem IsNat.sub {x y : Floating f} {m n : Nat} (hx : x.IsNat m) (hy : y.IsNat n) (order : n ≤ m)
    (onGrid : f.OnGrid ((m - n) <<< f.scale)) : (x - y).IsNat (m - n) := by
  obtain ⟨-, rfl⟩ := hx
  obtain ⟨-, rfl⟩ := hy
  refine ⟨onGrid, ?_⟩
  rw [finite_sub_finite (shiftLeft_mono order)]
  apply ofQuanta_eq (by decide)
  simp only [Nat.shiftLeft_eq, Nat.mul_one, Nat.sub_mul]

theorem ofQuanta_true_lt {x : Floating f} {k num den : Nat} (h : x.IsNat k) (positive : 0 < k) :
    (ofQuanta true num den : Floating f).lt x = true := by
  have units : 0 < k <<< f.scale := units_pos positive
  unfold ofQuanta
  split
  · refine (h.finite_lt true _).mpr ?_
    simp only [signed_true]
    omega
  · obtain ⟨-, rfl⟩ := h
    have order : -((1 <<< f.limit : Nat) : Int) < (k <<< f.scale : Nat) := by
      generalize 1 <<< f.limit = limit
      omega
    exact decide_eq_true order

theorem IsNat.sub_lt {x y z : Floating f} {m n k : Nat} (hx : x.IsNat m) (hy : y.IsNat n)
    (order : m < n) (hz : z.IsNat k) (positive : 0 < k) : (x - y).lt z = true := by
  obtain ⟨-, rfl⟩ := hx
  obtain ⟨-, rfl⟩ := hy
  have units : m <<< f.scale < n <<< f.scale := units_lt_units_iff.mpr order
  generalize m <<< f.scale = a, n <<< f.scale = b at *
  show (if signed false a + signed true b = 0 then _ else ofQuanta _ _ 1 : Floating f).lt z = true
  simp only [signed_false, Bool.not_false, signed_true]
  rw [if_neg (by omega), decide_eq_true (by omega)]
  exact ofQuanta_true_lt hz positive

@[simp] theorem position_neg (x : Floating f) : (-x).position = x.position.map (- ·) := by
  cases x with
  | nan => rfl
  | infinite s => exact congrArg some (signed_not s _)
  | finite s n => exact congrArg some (signed_not s n)

theorem isNat_ofInt_of_onGrid {n : Nat} (onGrid : f.OnGrid (n <<< f.scale)) :
    (ofInt n : Floating f).IsNat n :=
  ⟨onGrid, ofQuanta_eq (by decide) (by simp) _⟩

end Exact

theorem isNat_ofInt {n : Nat} (h : n ≤ 2 ^ 53) : (ofInt n : Double).IsNat n :=
  isNat_ofInt_of_onGrid (Format.onGrid_nat h)

theorem isNat_zero : (0 : Double).IsNat 0 := isNat_ofInt (n := 0) (by decide)

theorem isNat_one : (1 : Double).IsNat 1 := isNat_ofInt (by decide)

theorem isNat_wordPower : wordPower.IsNat (2 ^ 32) := isNat_ofInt (by decide)

end Floating

end CallByNeed
