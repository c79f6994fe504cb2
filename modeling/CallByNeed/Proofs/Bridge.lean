import CallByNeed.Proofs.Wraparound
import Mathlib.Data.Nat.Bitwise

set_option autoImplicit false

/-!
Integers of any size and of 64 bits.

An integer of any size becomes its residue modulo `2 ^ 64`, signed or not. Sums,
products, bitwise operations and left shifts may be done before or after that.
-/

namespace CallByNeed

/-- The operations that integers of any size and of 64 bits have in common. -/
structure Operations (α : Type) where
  add : α → α → α
  sub : α → α → α
  mul : α → α → α
  neg : α → α
  and : α → α → α
  or : α → α → α
  xor : α → α → α
  complement : α → α
  shiftLeft : α → UInt32 → α

/-- The conversion may be done before or after each of the operations; shifts are by
less than 64 bits. -/
structure Operations.Commutes {α β : Type} (source : Operations α) (target : Operations β)
    (convert : α → β) : Prop where
  add (a b : α) : convert (source.add a b) = target.add (convert a) (convert b)
  sub (a b : α) : convert (source.sub a b) = target.sub (convert a) (convert b)
  mul (a b : α) : convert (source.mul a b) = target.mul (convert a) (convert b)
  neg (a : α) : convert (source.neg a) = target.neg (convert a)
  and (a b : α) : convert (source.and a b) = target.and (convert a) (convert b)
  or (a b : α) : convert (source.or a b) = target.or (convert a) (convert b)
  xor (a b : α) : convert (source.xor a b) = target.xor (convert a) (convert b)
  complement (a : α) : convert (source.complement a) = target.complement (convert a)
  shiftLeft (a : α) {amount : UInt32} (small : amount < 64) :
    convert (source.shiftLeft a amount) = target.shiftLeft (convert a) amount

theorem Operations.Commutes.trans {α β γ : Type} {source : Operations α} {middle : Operations β}
    {target : Operations γ} {f : α → β} {g : β → γ} (first : source.Commutes middle f)
    (second : middle.Commutes target g) : source.Commutes target (g ∘ f) where
  add a b := (congrArg g (first.add a b)).trans (second.add _ _)
  sub a b := (congrArg g (first.sub a b)).trans (second.sub _ _)
  mul a b := (congrArg g (first.mul a b)).trans (second.mul _ _)
  neg a := (congrArg g (first.neg a)).trans (second.neg _)
  and a b := (congrArg g (first.and a b)).trans (second.and _ _)
  or a b := (congrArg g (first.or a b)).trans (second.or _ _)
  xor a b := (congrArg g (first.xor a b)).trans (second.xor _ _)
  complement a := (congrArg g (first.complement a)).trans (second.complement _)
  shiftLeft a _ small := (congrArg g (first.shiftLeft a small)).trans (second.shiftLeft _ small)

def Integer.operations : Operations Integer where
  add := (· + ·)
  sub := (· - ·)
  mul := (· * ·)
  neg := (- ·)
  and := Integer.and
  or := Integer.or
  xor := Integer.xor
  complement := Integer.complement
  shiftLeft a amount := a.shiftLeft amount.toNat

def Long.operations : Operations Long where
  add := (· + ·)
  sub := (· - ·)
  mul := (· * ·)
  neg := (- ·)
  and := Long.and
  or := Long.or
  xor := Long.xor
  complement := Long.complement
  shiftLeft := Long.shiftLeft

/-- The opposite of an unsigned number is its difference from zero. -/
def ULong.operations : Operations ULong where
  add := (· + ·)
  sub := (· - ·)
  mul := (· * ·)
  neg := (ULong.zero - ·)
  and := ULong.and
  or := ULong.or
  xor := ULong.xor
  complement := ULong.complement
  shiftLeft := ULong.shiftLeft

namespace Integer

theorem toLong_eq (a : Integer) : a.toLong = Long.ofInt a.toInt := by
  rw [toLong, wordAt_eq, wordAt_eq]
  simp [Long.ofInt]

@[simp] theorem toLong_ofLong (x : Long) : (ofLong x).toLong = x := by
  rw [toLong, ofLong, ofWords, wordAt_make, wordAt_make]
  rfl

@[simp] theorem toULong_ofULong (x : ULong) : (ofULong x).toULong = x := by
  rw [toULong, ofULong, wordAt_make, wordAt_make]
  rfl

theorem commutes_toLong : operations.Commutes Long.operations toLong where
  add a b := by
    simp only [operations, Long.operations, toLong_eq, toInt_add, Long.ofInt_add]
  sub a b := by
    simp only [operations, Long.operations, toLong_eq, toInt_sub, Long.ofInt_sub]
  mul a b := by
    simp only [operations, Long.operations, toLong_eq, toInt_mul, Long.ofInt_mul]
  neg a := by
    simp only [operations, Long.operations, toLong_eq, toInt_neg, Long.ofInt_neg]
  and a b := by
    simp only [operations, Long.operations, toLong, wordAt_and, Long.and]
  or a b := by
    simp only [operations, Long.operations, toLong, wordAt_or, Long.or]
  xor a b := by
    simp only [operations, Long.operations, toLong, wordAt_xor, Long.xor]
  complement a := by
    simp only [operations, Long.operations, toLong_eq, toInt_complement, Long.ofInt_complement]
  shiftLeft a amount small := by
    simp only [operations, Long.operations, toLong_eq, toInt_shiftLeft]
    exact Long.ofInt_shiftLeft _ (UInt32.lt_iff_toNat_lt.mp small)

end Integer

/-- An unsigned number has the bits of a signed one, and so have its operations. -/
theorem Long.commutes_ofLong : Long.operations.Commutes ULong.operations ULong.ofLong where
  add _ _ := rfl
  sub _ _ := rfl
  mul _ _ := rfl
  neg x := by
    show ULong.ofLong (-x) = ULong.ofLong (Long.zero - x)
    rw [show Long.zero = Long.ofInt 0 by decide, ← Long.ofInt_toInt x, ← Long.ofInt_neg,
      ← Long.ofInt_sub, Int.zero_sub]
  and _ _ := rfl
  or _ _ := rfl
  xor _ _ := rfl
  complement _ := rfl
  shiftLeft _ _ _ := rfl

namespace Integer

theorem take_padded_one (a : Integer) : (a.padded 1).take 1 = [a.wordAt 0] := by
  obtain ⟨ws, negative⟩ := a
  cases ws <;> rfl

theorem and_topBit_eq_zero_iff (w : UInt32) : w &&& 0x80000000 = 0 ↔ ¬ 0x80000000 ≤ w.toNat := by
  have bound := w.toNat_lt
  rw [← UInt32.toNat_inj, UInt32.toNat_and]
  show w.toNat &&& 2 ^ 31 = 0 ↔ _
  rw [Nat.and_two_pow, Nat.testBit_eq_decide_div_mod_eq]
  simp
  omega

/-- The upper word decides the sign on both ways. -/
@[simp] theorem ofLong_toLong (a : Integer) : ofLong a.toLong = a.shorten 64 := by
  have mask : ∀ w : UInt32, w &&& 0xFFFFFFFF = w := fun _ => UInt32.and_neg_one
  have unmask : ∀ w : UInt32, w ||| ~~~0xFFFFFFFF = w := fun _ => UInt32.or_zero
  show make [a.wordAt 0, a.wordAt 1] (decide (0x80000000 ≤ (a.wordAt 1).toNat)) =
    if (a.wordAt 1 &&& 0xFFFFFFFF) &&& 0x80000000 = 0
    then make ((a.padded 1).take 1 ++ [a.wordAt 1 &&& 0xFFFFFFFF]) false
    else make ((a.padded 1).take 1 ++ [(a.wordAt 1 &&& 0xFFFFFFFF) ||| ~~~0xFFFFFFFF]) true
  rw [take_padded_one, mask, unmask]
  split
  · next positive =>
    rw [decide_eq_false ((and_topBit_eq_zero_iff _).mp positive)]
    rfl
  · next negative =>
    rw [and_topBit_eq_zero_iff, not_not] at negative
    rw [decide_eq_true negative]
    rfl

@[simp]
theorem toInt_ofULong_toULong (a : Integer) : (ofULong a.toULong).toInt = a.toInt % 2 ^ 64 := by
  rw [toInt_ofULong, ← Long.bits_ofInt, ← toLong_eq]
  rfl

/-- The two kinds of integers agree modulo `2 ^ 64`. An integer that comes back is cut to 64
bits, with or without its sign, and one of 64 bits comes back unchanged. -/
theorem bridges_commute :
    operations.Commutes Long.operations toLong ∧ operations.Commutes ULong.operations toULong ∧
    (∀ a : Integer, ofLong a.toLong = a.shorten 64) ∧
    (∀ a : Integer, (ofULong a.toULong).toInt = a.toInt % 2 ^ 64) ∧
    (∀ x : Long, (ofLong x).toLong = x) ∧ ∀ x : ULong, (ofULong x).toULong = x :=
  ⟨commutes_toLong, commutes_toLong.trans Long.commutes_ofLong, ofLong_toLong,
    toInt_ofULong_toULong, toLong_ofLong, toULong_ofULong⟩

end Integer

end CallByNeed
