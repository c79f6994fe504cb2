set_option autoImplicit false

/-!
Numbers as a sign and a magnitude.
-/

namespace CallByNeed

def signed (negative : Bool) (n : Nat) : Int := if negative then -n else n

@[simp] theorem signed_false (n : Nat) : signed false n = n := if_neg Bool.false_ne_true

@[simp] theorem signed_true (n : Nat) : signed true n = -n := if_pos rfl

@[simp] theorem natAbs_signed (s : Bool) (n : Nat) : (signed s n).natAbs = n := by
  cases s <;> simp

theorem signed_not (s : Bool) (n : Nat) : signed (!s) n = -signed s n := by
  cases s <;> simp

theorem signed_mul (s t : Bool) (m n : Nat) :
    signed (s != t) (m * n) = signed s m * signed t n := by
  cases s <;> cases t <;>
    simp only [signed_false, signed_true, bne_self_eq_false, Bool.bne_false, Bool.false_bne,
      Int.natCast_mul, Int.neg_mul, Int.mul_neg, Int.neg_neg]

theorem signed_mul_nat (s : Bool) (m n : Nat) : signed s (m * n) = signed s m * n := by
  cases s <;> simp only [signed_false, signed_true, Int.natCast_mul, Int.neg_mul]

@[simp] theorem signed_decide (n : Int) : signed (n < 0) n.natAbs = n := by
  by_cases negative : n < 0
  · simp only [negative, decide_true, signed_true]
    omega
  · simp only [negative, decide_false, signed_false]
    omega

theorem signed_inj {s t : Bool} {m n : Nat} (same : signed s m = signed t n) (positive : 0 < n) :
    s = t ∧ m = n := by
  cases s <;> cases t <;> simp only [signed_false, signed_true] at same ⊢ <;> grind

end CallByNeed
