import CallByNeed.Proofs.Division
import CallByNeed.Proofs.Wraparound

set_option autoImplicit false

/-!
Products of factors of either sign.

Some products are settled before the signs are looked at. Otherwise negative factors are
turned around and multiplied again, until neither is negative. `Multiplier.Runs` is this
recursion for integers of any size and of 64 bits, so that a derivation is a run that ends.
-/

namespace CallByNeed

/-- What a multiplication by signs is made of. -/
structure Multiplier (α : Type) where
  /-- The product, where it is known before the signs are looked at. -/
  settled : α → α → Option α
  negative : α → Bool
  /-- The product of factors that are not negative. -/
  positive : α → α → α

namespace Multiplier

variable {α : Type} [Neg α] {m : Multiplier α} {x y z z' : α}

/-- The recursion ends with this product. -/
inductive Runs (m : Multiplier α) : α → α → α → Prop where
  | settled {x y z : α} : m.settled x y = some z → Runs m x y z
  | both {x y z : α} : m.settled x y = none → m.negative x = true → m.negative y = true →
      Runs m (-x) (-y) z → Runs m x y z
  | left {x y z : α} : m.settled x y = none → m.negative x = true → m.negative y = false →
      Runs m (-x) y z → Runs m x y (-z)
  | right {x y z : α} : m.settled x y = none → m.negative x = false → m.negative y = true →
      Runs m x (-y) z → Runs m x y (-z)
  | positive {x y : α} : m.settled x y = none → m.negative x = false → m.negative y = false →
      Runs m x y (m.positive x y)

theorem Runs.unique (first : m.Runs x y z) (second : m.Runs x y z') : z = z' := by
  induction first generalizing z' with
  | settled found => cases second <;> simp_all
  | both _ _ _ _ ih =>
    cases second with
    | both _ _ _ again => exact ih again
    | _ => simp_all
  | left _ _ _ _ ih =>
    cases second with
    | left _ _ _ again => rw [ih again]
    | _ => simp_all
  | right _ _ _ _ ih =>
    cases second with
    | right _ _ _ again => rw [ih again]
    | _ => simp_all
  | positive => cases second <;> simp_all

/-- The product with the signs put back at once. -/
def product (m : Multiplier α) (x y : α) : α :=
  match m.settled x y with
  | some z => z
  | none =>
    match m.negative x, m.negative y with
    | true, true => m.positive (-x) (-y)
    | true, false => -m.positive (-x) y
    | false, true => -m.positive x (-y)
    | false, false => m.positive x y

/-- A negative factor that is turned around is not negative, and settles nothing. -/
structure Turns (m : Multiplier α) : Prop where
  negative_neg {x y : α} : m.settled x y = none → m.negative x = true → m.negative (-x) = false
  settled_neg {x y : α} : m.settled x y = none → m.negative x = true → m.settled (-x) y = none
  settled_comm {x y : α} : m.settled x y = none → m.settled y x = none

theorem Turns.runs_product (turns : m.Turns) (x y : α) : m.Runs x y (m.product x y) := by
  unfold product
  split
  · next found => exact .settled found
  next none =>
  have none' := turns.settled_comm none
  split
  · next negative negative' =>
    have left := turns.settled_neg none negative
    refine .both none negative negative' (.positive ?_ ?_ ?_)
    · exact turns.settled_comm (turns.settled_neg (turns.settled_comm left) negative')
    · exact turns.negative_neg none negative
    · exact turns.negative_neg none' negative'
  · next negative positive =>
    exact .left none negative positive
      (.positive (turns.settled_neg none negative) (turns.negative_neg none negative) positive)
  · next positive negative =>
    refine .right none positive negative (.positive ?_ positive ?_)
    · exact turns.settled_comm (turns.settled_neg none' negative)
    · exact turns.negative_neg none' negative
  · next positive positive' => exact .positive none positive positive'

theorem Turns.runs_iff (turns : m.Turns) : m.Runs x y z ↔ z = m.product x y :=
  ⟨fun runs => runs.unique (turns.runs_product x y), fun same => same ▸ turns.runs_product x y⟩

end Multiplier

namespace Integer

def multiplier : Multiplier Integer where
  settled a b := if a.isZero || b.isZero then some zero else none
  negative := Integer.negative
  positive := mulPositive

theorem mul_eq_product (a b : Integer) : a * b = multiplier.product a b := by
  show Integer.mul a b = _
  unfold Integer.mul Multiplier.product multiplier
  dsimp only
  split <;> rfl

theorem isZero_neg {a : Integer} (negative : a.negative = true) : (-a).isZero = false := by
  rw [← toInt_lt_zero_iff] at negative
  rw [← Bool.not_eq_true, (canonical_neg a).isZero_iff, toInt_neg]
  omega

theorem turns_multiplier : multiplier.Turns where
  negative_neg _ negative := Integer.negative_neg negative
  settled_neg none negative := by
    simp_all [multiplier, isZero_neg]
  settled_comm none := by
    simp_all [multiplier]

end Integer

namespace Long

def multiplier : Multiplier Long where
  settled x y :=
    if x.isZero || y.isZero then some zero
    else if x = least then some (if y.isOdd then least else zero)
    else if y = least then some (if x.isOdd then least else zero)
    else none
  negative := Long.isNegative
  positive := mulPositive

theorem mul_eq_product (x y : Long) : x * y = multiplier.product x y := by
  show Long.mul x y = _
  unfold Long.mul Multiplier.product multiplier
  dsimp only
  split_ifs <;> rfl

theorem settled_eq_none_iff (x y : Long) : multiplier.settled x y = none ↔
    (x.toInt ≠ 0 ∧ x ≠ least) ∧ y.toInt ≠ 0 ∧ y ≠ least := by
  simp only [multiplier, Bool.or_eq_true, isZero_iff]
  split_ifs <;> grind

theorem turns_multiplier : multiplier.Turns where
  negative_neg {x y} none negative := by
    have proper := ((settled_eq_none_iff x y).mp none).1.2
    have low := nonneg_neg proper negative
    show (-x).isNegative = false
    rw [← Bool.not_eq_true, isNegative_iff]
    omega
  settled_neg {x y} none negative := by
    rw [settled_eq_none_iff] at none ⊢
    have bounds := x.toInt_bounds
    have value := toInt_neg none.1.2
    refine ⟨⟨by omega, ?_⟩, none.2⟩
    rw [Ne, eq_least_iff]
    omega
  settled_comm {x y} none := by
    rw [settled_eq_none_iff] at none ⊢
    exact none.symm

end Long

namespace Integer

/-! Doubles and limbs -/

variable {a b : Integer}

theorem length_make_le (ws : List UInt32) (negative : Bool) :
    (make ws negative).words.length ≤ ws.length := by
  obtain ⟨n, split⟩ := exists_trim_append (fillWord negative) ws
  have lengths := congrArg List.length split
  rw [List.length_append] at lengths
  show (trim (fillWord negative) ws).length ≤ _
  omega

theorem Canonical.isSmallFactor_iff (canonical : a.Canonical) :
    a.isSmallFactor = true ↔ 0 ≤ a.toInt ∧ a.toInt < 2 ^ 24 := by
  constructor
  · exact fun small => (isNat_toDouble small).2
  · rintro ⟨low, high⟩
    have word : (UInt32.ofNat a.toInt.toNat).toNat = a.toInt.toNat := by
      rw [UInt32.toNat_ofNat']
      omega
    have value := toInt_ofUInt32 (UInt32.ofNat a.toInt.toNat)
    rw [word, Int.toNat_of_nonneg low] at value
    have same := canonical.eq_of_toInt (canonical_make _ _) value.symm
    have short := length_make_le [UInt32.ofNat a.toInt.toNat] false
    rw [same, isSmallFactor, wordAt_make]
    simp only [Bool.and_eq_true, Bool.not_eq_true', decide_eq_true_eq]
    refine ⟨⟨rfl, short⟩, ?_⟩
    show (UInt32.ofNat a.toInt.toNat).toNat < _
    omega

theorem Canonical.abs_isSmallFactor_iff (canonical : a.Canonical) :
    a.abs.isSmallFactor = true ↔ |a.toInt| < 2 ^ 24 := by
  rw [canonical.abs.isSmallFactor_iff, toInt_abs]
  exact and_iff_right (abs_nonneg _)

theorem negative_of_isSmallFactor (small : a.isSmallFactor = true) : a.negative = false := by
  have low := (isNat_toDouble small).2.1
  rw [← Bool.not_eq_true, ← toInt_lt_zero_iff]
  omega

/-- Small factors have one product, as doubles and by limbs. -/
theorem ofDouble_mul_toDouble (small : a.isSmallFactor = true) (small' : b.isSmallFactor = true) :
    ofDouble (a.toDouble * b.toDouble) = mulLimbs a b := by
  have positive := negative_of_isSmallFactor small
  have positive' := negative_of_isSmallFactor small'
  have doubles : mulPositive a b = ofDouble (a.toDouble * b.toDouble) :=
    if_pos (by rw [small, small']; rfl)
  apply (canonical_ofDouble _).eq_of_toInt (canonical_make _ _)
  rw [← doubles, toInt_mulPositive positive positive']
  exact (toInt_mulLimbs positive positive').symm

/-- A multiplication ends, whatever the signs, and in nothing but the product. Factors of less
than 24 bits are multiplied as doubles, with the words that their limbs would give. -/
theorem mul_denotes_product (a b : Integer) :
    (∀ c, multiplier.Runs a b c ↔ c = a * b) ∧
    (a * b).toInt = a.toInt * b.toInt ∧ (a * b).Canonical ∧
    (a.Canonical → b.Canonical →
      ((a.abs.isSmallFactor && b.abs.isSmallFactor) = true ↔
        |a.toInt| < 2 ^ 24 ∧ |b.toInt| < 2 ^ 24) ∧
      (|a.toInt| < 2 ^ 24 → |b.toInt| < 2 ^ 24 →
        ofDouble (a.abs.toDouble * b.abs.toDouble) = mulLimbs a.abs b.abs)) := by
  refine ⟨fun c => ?_, toInt_mul a b, canonical_mul a b, fun canonical canonical' => ?_⟩
  · rw [mul_eq_product]
    exact turns_multiplier.runs_iff
  · have small := canonical.abs_isSmallFactor_iff
    have small' := canonical'.abs_isSmallFactor_iff
    exact ⟨by rw [Bool.and_eq_true, small, small'], fun low low' =>
      ofDouble_mul_toDouble (small.mpr low) (small'.mpr low')⟩

/-- The largest small factor, with its opposite. -/
theorem mul_denotes_product_small :
    let a : Integer := ofInt32 0xFFFFFF
    let b : Integer := ofInt32 (-0xFFFFFF)
    a.Canonical ∧ b.Canonical ∧ |a.toInt| < 2 ^ 24 ∧ |b.toInt| < 2 ^ 24 ∧
      (a * b).toInt = -281474943156225 ∧
      ofDouble (a.abs.toDouble * b.abs.toDouble) = mulLimbs a.abs b.abs := by
  intro a b
  have canonical : a.Canonical := by decide
  have canonical' : b.Canonical := by decide
  have low : |a.toInt| < 2 ^ 24 := by decide
  have low' : |b.toInt| < 2 ^ 24 := by decide
  obtain ⟨-, product, -, fast⟩ := mul_denotes_product a b
  exact ⟨canonical, canonical', low, low', product.trans (by decide),
    (fast canonical canonical').2 low low'⟩

end Integer

end CallByNeed
