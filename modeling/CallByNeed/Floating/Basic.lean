import CallByNeed.Sign

set_option autoImplicit false

/-!
Binary floating-point numbers of a fixed format.

The least positive number of a format is its quantum. Every finite number is a
whole number of quanta with a sign, and the numbers of the format are those
whole numbers that are multiples of the spacing at their size. So exact results
are integers or quotients of integers, and rounding is one function on them.

Zero has a sign, and so has what is not a number, which carries its fraction
field along. Operations pass it on, that of the left operand first.
-/

namespace CallByNeed

/-- The widths of the fraction field and of the exponent field, in bits. -/
structure Format where
  fraction : Nat
  exponent : Nat
  fraction_pos : 0 < fraction
  deriving DecidableEq

namespace Format

def double : Format := ⟨52, 11, by decide⟩

def single : Format := ⟨23, 8, by decide⟩

variable (f : Format)

/-- The number one is `2 ^ scale` quanta. -/
def scale : Nat := 1 <<< (f.exponent - 1) + f.fraction - 2

/-- Finite numbers have fewer than `2 ^ limit` quanta. -/
def limit : Nat := 1 <<< f.exponent + f.fraction - 2

/-- Around `n` quanta, neighbours are `2 ^ gap n` quanta apart. -/
def gap (n : Nat) : Nat := n.log2 - f.fraction

/-- The bits of `n` below the spacing are zero. -/
def Aligned (n : Nat) : Prop := n >>> f.gap n <<< f.gap n = n

/-- The magnitudes that the format holds, in quanta. -/
def OnGrid (n : Nat) : Prop := n < 1 <<< f.limit ∧ f.Aligned n

instance (n : Nat) : Decidable (f.OnGrid n) :=
  inferInstanceAs (Decidable (_ < _ ∧ _ = _))

/-- The fractions of the patterns that are not numbers. -/
def IsPayload (n : Nat) : Prop := 0 < n ∧ n < 1 <<< f.fraction

/-- The highest bit of the fraction. -/
def quietBit : Nat := 1 <<< (f.fraction - 1)

theorem quietBit_pos : 0 < f.quietBit := by
  rw [quietBit, Nat.one_shiftLeft]
  exact Nat.two_pow_pos _

theorem quietBit_lt : f.quietBit < 1 <<< f.fraction := by
  have := f.fraction_pos
  rw [quietBit, Nat.one_shiftLeft, Nat.one_shiftLeft]
  exact Nat.pow_lt_pow_right (by decide) (by omega)

theorem isPayload_quietBit : f.IsPayload f.quietBit := ⟨f.quietBit_pos, f.quietBit_lt⟩

theorem aligned_iff (n : Nat) : f.Aligned n ↔ Nat.pow 2 (f.gap n) ∣ n := by
  rw [Aligned, Nat.shiftLeft_eq, Nat.shiftRight_eq_div_pow]
  exact ⟨fun h => ⟨_, h.symm.trans (Nat.mul_comm _ _)⟩, Nat.div_mul_cancel⟩

theorem onGrid_zero : f.OnGrid 0 := by
  refine ⟨?_, by simp [Aligned]⟩
  rw [Nat.one_shiftLeft]
  exact Nat.two_pow_pos _

/-- A significand of one bit more than the fraction stays aligned when shifted. -/
theorem aligned_shiftLeft {k s : Nat} (h : k ≤ 1 <<< (f.fraction + 1)) :
    f.Aligned (k <<< s) := by
  rw [Nat.one_shiftLeft] at h
  rw [aligned_iff, Nat.shiftLeft_eq]
  by_cases hk : k = 0
  · simp [hk]
  have hn : k * 2 ^ s ≠ 0 := Nat.mul_ne_zero hk (Nat.ne_of_gt (Nat.two_pow_pos s))
  rcases Nat.lt_or_eq_of_le h with hlt | heq
  · have hlog : (k * 2 ^ s).log2 < f.fraction + 1 + s := by
      rw [Nat.log2_lt hn, Nat.pow_add]
      exact Nat.mul_lt_mul_of_pos_right hlt (Nat.two_pow_pos s)
    have : f.gap (k * 2 ^ s) ≤ s := by unfold gap; omega
    exact Nat.dvd_trans (Nat.pow_dvd_pow 2 this) (Nat.dvd_mul_left _ _)
  · subst heq
    rw [← Nat.pow_add]
    have : f.gap (2 ^ (f.fraction + 1 + s)) ≤ f.fraction + 1 + s := by
      unfold gap
      rw [Nat.log2_two_pow]
      omega
    exact Nat.pow_dvd_pow 2 this

end Format

/-- The integer nearest to `num / den`, a half going to the even neighbour. -/
def roundHalfEven (num den : Nat) : Nat :=
  let q := num / den
  let r := num % den
  if den < 2 * r ∨ (2 * r = den ∧ q % 2 = 1) then q + 1 else q

theorem roundHalfEven_le (num den : Nat) : roundHalfEven num den ≤ num / den + 1 := by
  simp only [roundHalfEven]
  split <;> omega

/-- The magnitude in quanta that is nearest to `num / den` quanta among those with
a significand of the format's width, a half going to the even significand. -/
def Format.round (f : Format) (num den : Nat) : Nat :=
  let s := f.gap (num / den)
  roundHalfEven num (den <<< s) <<< s

theorem Format.aligned_round (f : Format) (num den : Nat) : f.Aligned (f.round num den) := by
  refine f.aligned_shiftLeft (Nat.le_trans (roundHalfEven_le _ _) ?_)
  rw [Nat.shiftLeft_eq, ← Nat.div_div_eq_div_mul, Nat.one_shiftLeft]
  have : num / den < 2 ^ (f.fraction + 1 + f.gap (num / den)) := by
    refine Nat.lt_of_lt_of_le Nat.lt_log2_self (Nat.pow_le_pow_right (by decide) ?_)
    unfold gap
    omega
  rw [Nat.pow_add] at this
  exact Nat.div_lt_of_lt_mul (by rwa [Nat.mul_comm])

inductive Floating (f : Format) where
  | nan (negative : Bool) (payload : Nat) (isPayload : f.IsPayload payload)
  | infinite (negative : Bool)
  | finite (negative : Bool) (quanta : Nat) (onGrid : f.OnGrid quanta)
  deriving DecidableEq

abbrev Double := Floating .double

abbrev Single := Floating .single

namespace Floating

variable {f : Format}

def zero (negative : Bool) : Floating f := .finite negative 0 f.onGrid_zero

instance : Inhabited (Floating f) := ⟨zero false⟩

/-- The result of an operation on numbers that has none. -/
def invalid : Floating f := .nan true f.quietBit f.isPayload_quietBit

/-- The number nearest to `num / den` quanta; past the largest it is infinite. -/
def ofQuanta (negative : Bool) (num den : Nat) : Floating f :=
  if h : f.round num den < 1 <<< f.limit then
    .finite negative (f.round num den) ⟨h, f.aligned_round num den⟩
  else .infinite negative

/-- The number nearest to an integer. -/
def ofInt (n : Int) : Floating f := ofQuanta (n < 0) (n.natAbs <<< f.scale) 1

instance (n : Nat) : OfNat (Floating f) n := ⟨ofInt n⟩

def isFinite : Floating f → Bool
  | .finite .. => true
  | _ => false

def isNegative : Floating f → Bool
  | .nan negative _ _ => negative
  | .infinite negative => negative
  | .finite negative _ _ => negative

def isZero : Floating f → Bool
  | .finite _ quanta _ => quanta == 0
  | _ => false

/-- Places numbers on a line, in quanta; the infinities stand at the two ends. -/
def position : Floating f → Option Int
  | .nan .. => none
  | .infinite negative => some (signed negative (1 <<< f.limit))
  | .finite negative quanta _ => some (signed negative quanta)

/-- False if either side is not a number. -/
def lt (x y : Floating f) : Bool :=
  match x.position, y.position with
  | some a, some b => a < b
  | _, _ => false

def le (x y : Floating f) : Bool :=
  match x.position, y.position with
  | some a, some b => a ≤ b
  | _, _ => false

/-- Equality of numbers: the zeros are equal, and what is not a number differs from all. -/
def equal (x y : Floating f) : Bool :=
  match x.position, y.position with
  | some a, some b => a == b
  | _, _ => false

protected def neg : Floating f → Floating f
  | .nan negative payload h => .nan (!negative) payload h
  | .infinite negative => .infinite !negative
  | .finite negative quanta h => .finite (!negative) quanta h

instance : Neg (Floating f) := ⟨Floating.neg⟩

/-- The exact sum, rounded. An exact zero is negative only as the sum of two
negative zeros. -/
protected def add : Floating f → Floating f → Floating f
  | .nan s p h, _ => .nan s p h
  | _, .nan s p h => .nan s p h
  | .infinite s, .infinite t => if s = t then .infinite s else invalid
  | .infinite s, .finite .. => .infinite s
  | .finite .., .infinite t => .infinite t
  | .finite s a _, .finite t b _ =>
    let sum := signed s a + signed t b
    if sum = 0 then zero (s && t) else ofQuanta (sum < 0) sum.natAbs 1

instance : Add (Floating f) := ⟨Floating.add⟩

/-- The sum with the opposite number. -/
protected def sub : Floating f → Floating f → Floating f
  | x, .nan s p h => x + .nan s p h
  | x, y => x + -y

instance : Sub (Floating f) := ⟨Floating.sub⟩

/-- The exact product, rounded. -/
protected def mul : Floating f → Floating f → Floating f
  | .nan s p h, _ => .nan s p h
  | _, .nan s p h => .nan s p h
  | .infinite s, .infinite t => .infinite (s != t)
  | .infinite s, .finite t b _ => if b = 0 then invalid else .infinite (s != t)
  | .finite s a _, .infinite t => if a = 0 then invalid else .infinite (s != t)
  | .finite s a _, .finite t b _ => ofQuanta (s != t) (a * b) (1 <<< f.scale)

instance : Mul (Floating f) := ⟨Floating.mul⟩

/-- The exact quotient, rounded. -/
protected def div : Floating f → Floating f → Floating f
  | .nan s p h, _ => .nan s p h
  | _, .nan s p h => .nan s p h
  | .infinite _, .infinite _ => invalid
  | .infinite s, .finite t _ _ => .infinite (s != t)
  | .finite s _ _, .infinite t => zero (s != t)
  | .finite s a _, .finite t b _ =>
    if b = 0 then (if a = 0 then invalid else .infinite (s != t))
    else ofQuanta (s != t) (a <<< f.scale) b

instance : Div (Floating f) := ⟨Floating.div⟩

/-- The remainder of the truncated quotient, with the sign of the dividend. -/
protected def mod : Floating f → Floating f → Floating f
  | .nan s p h, _ => .nan s p h
  | _, .nan s p h => .nan s p h
  | .infinite _, _ => invalid
  | .finite s a h, .infinite _ => .finite s a h
  | .finite s a _, .finite _ b _ => if b = 0 then invalid else ofQuanta s (a % b) 1

instance : Mod (Floating f) := ⟨Floating.mod⟩

/-- The greatest whole number that is not above. -/
def floor : Floating f → Floating f
  | .finite s a _ =>
    let units := if s then (a + (1 <<< f.scale - 1)) >>> f.scale else a >>> f.scale
    ofQuanta s (units <<< f.scale) 1
  | x => x

/-- The integer part, rounded toward zero; zero for what is not finite. -/
def toInt : Floating f → Int
  | .finite s a _ => signed s (a >>> f.scale)
  | _ => 0

/-- The magnitude. -/
protected def abs : Floating f → Floating f
  | .nan _ payload h => .nan false payload h
  | .infinite _ => .infinite false
  | .finite _ quanta h => .finite false quanta h

/-- The integer part as a number, rounded toward zero. -/
def trunc : Floating f → Floating f
  | .finite s a _ => ofQuanta s (a >>> f.scale <<< f.scale) 1
  | x => x

/-- The remainder that is not negative, up to rounding. -/
def remEuclid (x y : Floating f) : Floating f :=
  let r := x % y
  if r.lt 0 then r + y.abs else r

/-- The integer part, stopped at the ends of the range; zero for what is not a number. -/
def toUInt32 : Floating f → UInt32
  | .nan .. => 0
  | .infinite negative => if negative then 0 else 0xFFFFFFFF
  | .finite s a h => UInt32.ofNat (min (Floating.finite s a h).toInt.toNat 0xFFFFFFFF)

/-- The greater of two numbers; what is not a number gives way to the other. -/
def max (x y : Floating f) : Floating f :=
  if x.position.isNone then y else if y.position.isNone then x else if x.lt y then y else x

/-- Two to an integer power. A negative power is the reciprocal of the positive
one, so it is zero where that one is infinite. -/
def twoPow (n : Int) : Floating f :=
  let power : Floating f := ofQuanta false (1 <<< (f.scale + min n.natAbs f.limit)) 1
  if 0 ≤ n then power else ofInt 1 / power

end Floating

end CallByNeed
