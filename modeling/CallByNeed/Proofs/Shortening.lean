import CallByNeed.Proofs.Denotation
import Mathlib.Data.Int.ModEq
import Mathlib.Data.Nat.Bitwise

set_option autoImplicit false

/-!
Shifts, and integers cut to a number of bits.

Cutting keeps whole words below the one that holds the topmost bit, and of that
word the bits up to it. What is kept is the residue of the integer. If the topmost
bit is set, the bits above it are filled with ones and the residue counts from
below zero.
-/

namespace CallByNeed.Integer

/-! Words below a place -/

theorem denote_append (low high : List UInt32) (negative : Bool) :
    denote (low ++ high) negative =
      wordsToNat low + 2 ^ (32 * low.length) * denote high negative := by
  induction low with
  | nil => simp [wordsToNat]
  | cons w low ih =>
    rw [List.cons_append, denote_cons, ih, List.length_cons, Nat.mul_succ, Int.pow_add, wordsToNat]
    push_cast
    ring

@[simp] theorem length_take_padded (a : Integer) (n : Nat) : ((a.padded n).take n).length = n := by
  simp [padded]
  omega

theorem wordsToNat_take_padded (a : Integer) (n : Nat) :
    (wordsToNat ((a.padded n).take n) : Int) = a.toInt % 2 ^ (32 * n) := by
  have length := a.length_take_padded n
  have bound := wordsToNat_lt ((a.padded n).take n)
  rw [length, Nat.one_shiftLeft] at bound
  have split := denote_append ((a.padded n).take n) ((a.padded n).drop n) a.negative
  rw [List.take_append_drop, denote_padded, length] at split
  rw [split, Int.add_mul_emod_self_left, Int.emod_eq_of_lt (by omega) (by exact_mod_cast bound)]

/-! The word that holds the topmost bit -/

section Top

-- `sign` has the topmost bit alone, `mask` all bits up to it.
variable {t : Nat} {sign mask : UInt32} (small : t < 32) (isSign : sign.toNat = 2 ^ t)
  (isMask : mask.toNat = 2 ^ (t + 1) - 1)

theorem toNat_one_shiftLeft (small : t < 32) : ((1 : UInt32) <<< UInt32.ofNat t).toNat = 2 ^ t := by
  have place : (UInt32.ofNat t).toNat % 32 = t := by
    rw [UInt32.toNat_ofNat']
    omega
  rw [UInt32.toNat_shiftLeft, place, UInt32.toNat_one, Nat.one_shiftLeft]
  exact Nat.mod_eq_of_lt (Nat.pow_lt_pow_right (by decide) small)

include isSign in
theorem toNat_or_sub_one : (sign ||| (sign - 1)).toNat = 2 ^ (t + 1) - 1 := by
  have positive : 0 < 2 ^ t := Nat.two_pow_pos t
  have nonzero : 1 ≤ sign := UInt32.le_iff_toNat_le.mpr (isSign ▸ positive)
  have below : (sign - 1).toNat = 2 ^ t - 1 := by
    rw [UInt32.toNat_sub_of_le sign 1 nonzero, isSign, UInt32.toNat_one]
  rw [UInt32.or_comm, Word.toNat_or_bit _ _ isSign (by omega), below, Nat.pow_succ]
  omega

include isSign in
theorem and_sign_eq_zero_iff {w : UInt32} (kept : w.toNat < 2 ^ (t + 1)) :
    w &&& sign = 0 ↔ w.toNat < 2 ^ t := by
  have quotient : w.toNat / 2 ^ t < 2 := Nat.div_lt_of_lt_mul (by rwa [Nat.pow_succ] at kept)
  have less : w.toNat / 2 ^ t = 0 ↔ w.toNat < 2 ^ t := by
    rw [Nat.div_eq_zero_iff]
    have := Nat.two_pow_pos t
    omega
  rw [← UInt32.toNat_inj, UInt32.toNat_and, isSign, Nat.and_two_pow,
    Nat.testBit_eq_decide_div_mod_eq, ← less]
  rcases Nat.le_one_iff_eq_zero_or_eq_one.mp (Nat.le_of_lt_succ quotient) with clear | set
  · simp [clear]
  · simp [set]

include small isMask in
theorem toNat_or_not_mask {w : UInt32} (kept : w.toNat < 2 ^ (t + 1)) :
    (w ||| ~~~mask).toNat = w.toNat + (2 ^ 32 - 2 ^ (t + 1)) := by
  have power : 2 ^ 32 = 2 ^ (t + 1) * 2 ^ (31 - t) := by
    rw [← Nat.pow_add]
    congr 1
    omega
  have above : (~~~mask).toNat = 2 ^ (t + 1) * (2 ^ (31 - t) - 1) := by
    have := Nat.two_pow_pos (t + 1)
    rw [UInt32.toNat_not, isMask, Nat.mul_sub, ← power]
    show 2 ^ 32 - 1 - _ = _
    omega
  rw [UInt32.or_comm, UInt32.toNat_or, above, ← Nat.two_pow_add_eq_or_of_lt kept, Nat.mul_sub,
    ← power]
  omega

end Top

/-! Residues -/

theorem emod_mul_eq (n : Int) {p : Int} (positive : 0 < p) (q : Int) :
    n % (p * q) = n % p + p * (n / p % q) := by
  rw [Int.emod_def n p, Int.emod_def (n / p) q, Int.emod_def n (p * q),
    Int.ediv_ediv_of_nonneg positive.le]
  ring

/-- The words that are kept, and of the last of them the bits that are kept, make the residue. -/
theorem low_add_top (a : Integer) (index : Nat) {mask : UInt32} {t : Nat} (small : t < 32)
    (isMask : mask.toNat = 2 ^ (t + 1) - 1) :
    (wordsToNat ((a.padded index).take index) : Int) +
        2 ^ (32 * index) * (a.wordAt index &&& mask).toNat =
      a.toInt % 2 ^ (32 * index + (t + 1)) := by
  have divides : (2 : Int) ^ (t + 1) ∣ 2 ^ 32 := pow_dvd_pow 2 (by omega)
  have top : ((a.wordAt index &&& mask).toNat : Int) =
      a.toInt / 2 ^ (32 * index) % 2 ^ (t + 1) := by
    rw [Word.toNat_and_mask _ _ isMask, wordAt_eq]
    push_cast
    rw [Word.toNat_ofInt, Int.emod_emod_of_dvd _ divides]
  rw [wordsToNat_take_padded, top, ← emod_mul_eq _ (Int.pow_pos (by decide)), ← Int.pow_add]

@[simp] theorem toInt_shorten_succ (a : Integer) (bits : Nat) :
    (a.shorten (bits + 1)).toInt = a.toInt.bmod (2 ^ (bits + 1)) := by
  obtain ⟨index, t, small, rfl⟩ : ∃ index t, t < 32 ∧ bits = 32 * index + t :=
    ⟨bits / 32, bits % 32, Nat.mod_lt _ (by decide), (Nat.div_add_mod _ _).symm⟩
  have isSign := toNat_one_shiftLeft small
  have isMask := toNat_or_sub_one isSign
  have residue := a.low_add_top index small isMask
  have length := a.length_take_padded index
  have bound := wordsToNat_lt ((a.padded index).take index)
  rw [length, Nat.one_shiftLeft] at bound
  have kept := Word.toNat_and_mask (a.wordAt index) _ isMask ▸ Nat.mod_lt _ (Nat.two_pow_pos (t + 1))
  have place : (32 * index + t + 1 - 1) / 32 = index := by omega
  have place' : (32 * index + t + 1 - 1) % 32 = t := by omega
  rw [shorten, if_neg (Nat.succ_ne_zero _)]
  simp only [place, place']
  generalize (1 : UInt32) <<< UInt32.ofNat t = sign at *
  generalize sign ||| (sign - 1) = mask at *
  generalize a.wordAt index &&& mask = top at *
  generalize (a.padded index).take index = low at *
  have half : 2 ^ (32 * index + t + 1) = 2 * (2 ^ (32 * index) * 2 ^ t) := by
    rw [Nat.pow_succ', Nat.pow_add]
  have residue : a.toInt % (2 ^ (32 * index + t + 1) : Nat) =
      (wordsToNat low + 2 ^ (32 * index) * top.toNat : Nat) := by
    push_cast
    rw [residue, Nat.add_assoc]
  rw [Int.bmod_def, residue, half]
  split
  · next clear =>
    rw [and_sign_eq_zero_iff isSign kept] at clear
    have less : 2 ^ (32 * index) * (top.toNat + 1) ≤ 2 ^ (32 * index) * 2 ^ t :=
      Nat.mul_le_mul_left _ clear
    rw [Nat.mul_succ] at less
    rw [if_pos (by omega), toInt_make, denote_append, length, denote_cons, denote_nil]
    simp
  · next set =>
    rw [and_sign_eq_zero_iff isSign kept, Nat.not_lt] at set
    have less : 2 ^ (32 * index) * 2 ^ t ≤ 2 ^ (32 * index) * top.toNat :=
      Nat.mul_le_mul_left _ set
    have power : 2 ^ (t + 1) ≤ 2 ^ 32 := Nat.pow_le_pow_right (by decide) small
    rw [if_neg (by omega), toInt_make, denote_append, length, denote_cons, denote_nil,
      toNat_or_not_mask small isMask kept, Int.natCast_add, Int.natCast_sub power]
    push_cast
    simp only [if_true]
    ring

/-- Shifts multiply by a power of two and divide by it, rounding down. An integer cut to a
number of bits is the one number in the range of that many bits, half of it below zero, that
leaves the same residue. -/
theorem shifts_exact (a : Integer) (bits : Nat) :
    (a.shiftLeft bits).toInt = a.toInt * 2 ^ bits ∧
    (a.shiftRight bits).toInt = a.toInt.fdiv (2 ^ bits) ∧
    (a.shorten 0).toInt = 0 ∧
    ∀ n, n = (a.shorten (bits + 1)).toInt ↔
      n ≡ a.toInt [ZMOD 2 ^ (bits + 1)] ∧ -2 ^ bits ≤ n ∧ n < 2 ^ bits := by
  have positive : (0 : Int) < 2 ^ bits := Int.pow_pos (by decide)
  have half : ((2 ^ (bits + 1) : Nat) : Int) = 2 * 2 ^ bits := by
    push_cast
    ring
  refine ⟨toInt_shiftLeft a bits, ?_, toInt_zero, fun n => ?_⟩
  · rw [toInt_shiftRight, Int.fdiv_eq_ediv_of_nonneg _ positive.le]
  · rw [toInt_shorten_succ]
    constructor
    · rintro rfl
      have low := Int.le_bmod (x := a.toInt) (Nat.two_pow_pos (bits + 1))
      have high := Int.bmod_lt (x := a.toInt) (Nat.two_pow_pos (bits + 1))
      refine ⟨?_, by omega, by omega⟩
      exact_mod_cast Int.bmod_emod (x := a.toInt) (m := 2 ^ (bits + 1))
    · rintro ⟨congruent, low, high⟩
      have congruent : n % (2 ^ (bits + 1) : Nat) = a.toInt % (2 ^ (bits + 1) : Nat) := by
        exact_mod_cast congruent
      rw [← Int.emod_bmod a.toInt, ← congruent, Int.emod_bmod]
      exact (Int.bmod_eq_of_le (by omega) (by omega)).symm

end CallByNeed.Integer
