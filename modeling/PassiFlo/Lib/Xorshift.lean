import Mathlib

/-!
# Xor with a shift

A step of a xorshift generator replaces a word by its xor with a shift of itself. A shift
respects xor, and enough shifts of the same kind leave nothing; so two words that the
step takes to one differ by a word that every shift leaves as it is, which is 0.

Nothing here mentions a particular generator.
-/

namespace Xorshift

variable {w : ℕ}

/-- **Xor with a nilpotent map.** -/
theorem injective_of_nilpotent {f : BitVec w → BitVec w}
    (hxor : ∀ x y, f (x ^^^ y) = f x ^^^ f y) {n : ℕ} (hnil : ∀ x, f^[n] x = 0) :
    Function.Injective fun x => x ^^^ f x := by
  intro x y h
  have h : x ^^^ f x = y ^^^ f y := h
  have hfix : f (x ^^^ y) = x ^^^ y := by
    calc f (x ^^^ y) = f x ^^^ f y := hxor x y
      _ = x ^^^ (x ^^^ f x) ^^^ f y := by rw [← BitVec.xor_assoc, BitVec.xor_self, BitVec.zero_xor]
      _ = x ^^^ y := by
          rw [h, BitVec.xor_assoc, BitVec.xor_assoc, BitVec.xor_self, BitVec.xor_zero]
  have hzero : x ^^^ y = 0 := by
    rw [← hnil (x ^^^ y), Function.iterate_fixed hfix]
  exact BitVec.xor_eq_zero_iff.mp hzero

/-- The step respects xor as well. -/
theorem xor_map_xor {f : BitVec w → BitVec w} (hxor : ∀ x y, f (x ^^^ y) = f x ^^^ f y)
    (x y : BitVec w) : (x ^^^ y) ^^^ f (x ^^^ y) = (x ^^^ f x) ^^^ (y ^^^ f y) := by
  rw [hxor]
  ac_rfl

theorem iterate_shiftLeft (k n : ℕ) (x : BitVec w) :
    (fun y : BitVec w => y <<< k)^[n] x = x <<< (k * n) := by
  induction n with
  | zero => exact (BitVec.shiftLeft_zero x).symm
  | succ n ih => rw [Function.iterate_succ_apply', ih, Nat.mul_succ, BitVec.shiftLeft_add]

theorem iterate_ushiftRight (k n : ℕ) (x : BitVec w) :
    (fun y : BitVec w => y >>> k)^[n] x = x >>> (k * n) := by
  induction n with
  | zero => exact (BitVec.ushiftRight_zero x).symm
  | succ n ih => rw [Function.iterate_succ_apply', ih, Nat.mul_succ, BitVec.shiftRight_add]

/-- A step to the left. -/
theorem xor_shiftLeft_injective {k : ℕ} (hk : 0 < k) :
    Function.Injective fun x : BitVec w => x ^^^ x <<< k := by
  refine injective_of_nilpotent (n := w) (fun x y => BitVec.shiftLeft_xor_distrib x y k) ?_
  intro x
  rw [iterate_shiftLeft]
  exact BitVec.shiftLeft_eq_zero (Nat.le_mul_of_pos_left w hk)

/-- A step to the right. -/
theorem xor_ushiftRight_injective {k : ℕ} (hk : 0 < k) :
    Function.Injective fun x : BitVec w => x ^^^ x >>> k := by
  refine injective_of_nilpotent (n := w) (fun x y => BitVec.ushiftRight_xor_distrib x y k) ?_
  intro x
  rw [iterate_ushiftRight]
  exact BitVec.ushiftRight_eq_zero (Nat.le_mul_of_pos_left w hk)

end Xorshift
