import CallByNeed.Floating.Basic

set_option autoImplicit false

/-!
Floating-point numbers as bit patterns, and taken apart into a whole significand
and a power of two.
-/

namespace CallByNeed

theorem mod_shiftLeft_lt (n k : Nat) : n % 1 <<< k < 1 <<< k := by
  rw [Nat.one_shiftLeft]
  exact Nat.mod_lt _ (Nat.two_pow_pos _)

namespace Format

variable (f : Format)

/-- The magnitude of a finite number with these fields, in quanta. -/
def magnitude (exponent fraction : Nat) : Nat :=
  if exponent = 0 then fraction else (1 <<< f.fraction + fraction) <<< (exponent - 1)

theorem onGrid_magnitude {exponent fraction : Nat} (he : exponent < 1 <<< f.exponent - 1)
    (hf : fraction < 1 <<< f.fraction) : f.OnGrid (f.magnitude exponent fraction) := by
  have double : 1 <<< (f.fraction + 1) = 1 <<< f.fraction + 1 <<< f.fraction := by
    rw [Nat.one_shiftLeft, Nat.one_shiftLeft, Nat.pow_succ]
    omega
  have within {n : Nat} (h : n ≤ f.limit) : 1 <<< n ≤ 1 <<< f.limit := by
    rw [Nat.one_shiftLeft, Nat.one_shiftLeft]
    exact Nat.pow_le_pow_right (by decide) h
  unfold magnitude
  split
  · refine ⟨Nat.lt_of_lt_of_le hf (within ?_), ?_⟩
    · unfold limit
      omega
    · have : fraction ≤ 1 <<< (f.fraction + 1) := by omega
      simpa using f.aligned_shiftLeft (s := 0) this
  · refine ⟨?_, f.aligned_shiftLeft (by omega)⟩
    have bound : f.fraction + 1 + (exponent - 1) ≤ f.limit := by
      unfold limit
      omega
    refine Nat.lt_of_lt_of_le ?_ (within bound)
    rw [Nat.shiftLeft_add, Nat.shiftLeft_eq _ (exponent - 1), Nat.shiftLeft_eq _ (exponent - 1)]
    exact Nat.mul_lt_mul_of_pos_right (by omega) (Nat.two_pow_pos _)

end Format

/-- A double as `sign * (mantissaHigh * 2 ^ 32 + mantissaLow) * 2 ^ exponent`. -/
structure Decoded where
  sign : Int32
  mantissaHigh : UInt32
  mantissaLow : UInt32
  exponent : Int32
  deriving DecidableEq

namespace Floating

variable {f : Format}

/-- The number with these bits; bits above the sign do not count. -/
def ofBits (bits : Nat) : Floating f :=
  let negative := bits.testBit (f.fraction + f.exponent)
  let exponent := bits >>> f.fraction % 1 <<< f.exponent
  let fraction := bits % 1 <<< f.fraction
  if h : exponent < 1 <<< f.exponent - 1 then
    .finite negative (f.magnitude exponent fraction)
      (f.onGrid_magnitude h (mod_shiftLeft_lt _ _))
  else if h : fraction = 0 then .infinite negative
  else .nan negative fraction ⟨Nat.pos_of_ne_zero h, mod_shiftLeft_lt _ _⟩

/-- The bits below the sign. The exponent field is one more than the gap if the
significand has its leading bit, which then adds that one. -/
def magnitudeBits (f : Format) (quanta : Nat) : Nat :=
  f.gap quanta <<< f.fraction + quanta >>> f.gap quanta

def infinityBits (f : Format) : Nat := (1 <<< f.exponent - 1) <<< f.fraction

def toBits (x : Floating f) : Nat :=
  let sign := if x.isNegative then 1 <<< (f.fraction + f.exponent) else 0
  match x with
  | .nan _ payload _ => sign + infinityBits f + payload
  | .infinite _ => sign + infinityBits f
  | .finite _ quanta _ => sign + magnitudeBits f quanta

/-- Reads the fields of the pattern. Numbers with exponent field zero have no hidden bit
and the exponent of the least that has one. -/
def decodeDouble (x : Double) : Decoded :=
  let sign : Int32 := if x.isNegative then -1 else 1
  if x.isZero then ⟨sign, 0, 0, 0⟩
  else
    let bits := UInt64.ofNat x.toBits
    let high := (bits >>> 32).toUInt32
    let low := bits.toUInt32
    let fraction := high &&& 0xFFFFF
    let biased := high >>> 20 &&& 0x7FF
    if biased = 0 then ⟨sign, fraction, low, 1 - 1075⟩
    else ⟨sign, fraction ||| 0x100000, low, biased.toInt32 - 1075⟩

/-- The mantissa with its sign, which fits in one word, and the exponent. Zero has no sign. -/
def decodeSingle (x : Single) : Int32 × Int32 :=
  if x.isZero then (0, 0)
  else
    let bits := UInt32.ofNat x.toBits
    let sign : Int32 := if x.isNegative then -1 else 1
    let fraction := bits &&& 0x7FFFFF
    let biased := bits >>> 23 &&& 0xFF
    if biased = 0 then (sign * fraction.toInt32, 1 - 150)
    else (sign * (fraction ||| 0x800000).toInt32, biased.toInt32 - 150)

theorem isPayload_convert {g : Format} {payload : Nat} (h : f.IsPayload payload) :
    g.IsPayload (g.quietBit ||| payload <<< g.fraction >>> f.fraction) := by
  have quiet := g.quietBit_lt
  have high : payload <<< g.fraction >>> f.fraction < 1 <<< g.fraction := by
    have bound := h.2
    rw [Nat.one_shiftLeft] at bound ⊢
    rw [Nat.shiftLeft_eq, Nat.shiftRight_eq_div_pow]
    exact Nat.div_lt_of_lt_mul (Nat.mul_lt_mul_of_pos_right bound (Nat.two_pow_pos _))
  refine ⟨Nat.lt_of_lt_of_le g.quietBit_pos Nat.left_le_or, ?_⟩
  rw [Nat.one_shiftLeft] at quiet high ⊢
  exact Nat.or_lt_two_pow quiet high

/-- The mantissa times a power of two, in two steps, so that neither power overflows
before the product is in range. -/
def encode (mantissa : Floating f) (exponent : Int) : Floating f :=
  let half := exponent.tdiv 2
  mantissa * twoPow half * twoPow (exponent - half)

/-- The nearest number of another format. What is not a number keeps its sign and the
high bits of its payload, with the highest bit set. -/
def convert {g : Format} : Floating f → Floating g
  | .nan negative payload h =>
    .nan negative (g.quietBit ||| payload <<< g.fraction >>> f.fraction) (isPayload_convert h)
  | .infinite negative => .infinite negative
  | .finite negative quanta _ => ofQuanta negative (quanta <<< g.scale) (1 <<< f.scale)

end Floating

end CallByNeed
