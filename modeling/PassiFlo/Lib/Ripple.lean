import Mathlib

/-!
# Adders, row by row

Numbers as their bits, lowest first, and the two laws every grid of full adders rests
on: a chain of adders that hand their carry to the next keeps the weight of what goes
in, and rows that each give up their lowest bit and pass the rest on multiply.

Nothing here mentions a particular circuit.
-/

namespace Ripple

/-- The number whose bits are the first `n` of `f`. -/
def value (f : ℕ → Bool) (n : ℕ) : ℕ := ∑ j ∈ Finset.range n, (f j).toNat * 2 ^ j

@[simp] theorem value_zero (f : ℕ → Bool) : value f 0 = 0 := rfl

/-- The highest bit apart. -/
theorem value_succ (f : ℕ → Bool) (n : ℕ) :
    value f (n + 1) = value f n + (f n).toNat * 2 ^ n := Finset.sum_range_succ ..

/-- The lowest bit apart. -/
theorem value_succ' (f : ℕ → Bool) (n : ℕ) :
    value f (n + 1) = (f 0).toNat + 2 * value (fun j => f (j + 1)) n := by
  have hshift : ∀ j, (f (j + 1)).toNat * 2 ^ (j + 1) = 2 * ((f (j + 1)).toNat * 2 ^ j) :=
    fun j => by rw [pow_succ]; ring
  rw [value, Finset.sum_range_succ', pow_zero, mul_one, add_comm, value, Finset.mul_sum]
  exact congrArg _ (Finset.sum_congr rfl fun j _ => hshift j)

/-- The low bits and the high bits. -/
theorem value_add (f : ℕ → Bool) (m n : ℕ) :
    value f (m + n) = value f m + 2 ^ m * value (fun j => f (m + j)) n := by
  induction n with
  | zero => rw [value_zero, mul_zero]; rfl
  | succ n ih =>
      rw [← add_assoc, value_succ, ih, value_succ, pow_add]
      ring

theorem value_congr {f g : ℕ → Bool} {n : ℕ} (h : ∀ j < n, f j = g j) : value f n = value g n :=
  Finset.sum_congr rfl fun j hj => by rw [h j (Finset.mem_range.mp hj)]

theorem value_eq_ofBits (f : ℕ → Bool) (n : ℕ) : value f n = Nat.ofBits fun j : Fin n => f j := by
  induction n generalizing f with
  | zero => rfl
  | succ n ih =>
      rw [value_succ', ih, Nat.ofBits_succ, add_comm]
      rfl

/-- A machine word is the number of its bits. -/
theorem toNat_eq_value {w : ℕ} (x : BitVec w) : x.toNat = value x.getLsbD w := by
  rw [value_eq_ofBits]
  change _ = Nat.ofBits fun j : Fin w => x.toNat.testBit j
  rw [Nat.ofBits_testBit, Nat.mod_eq_of_lt x.isLt]

/-- The word whose bits a function lists. -/
theorem toNat_ofFnLE {w : ℕ} (f : ℕ → Bool) :
    (BitVec.ofFnLE fun j : Fin w => f j).toNat = value f w := by
  rw [BitVec.toNat_ofFnLE, value_eq_ofBits]

/-- A column of AND gates: the partial product of one bit. -/
theorem value_and (f : ℕ → Bool) (b : Bool) (n : ℕ) :
    value (fun j => f j && b) n = value f n * b.toNat := by
  cases b with
  | true => simp only [Bool.and_true, Bool.toNat_true, mul_one]
  | false =>
      simp only [Bool.and_false, Bool.toNat_false, mul_zero, value, zero_mul]
      exact Finset.sum_const_zero

/--
**A chain of adders.** Position `j` takes in the weight `x j` and the carry of the position
before; the sum bits and the last carry hold all that went in.
-/
theorem chain {y c : ℕ → Bool} {x : ℕ → ℕ} {n : ℕ}
    (hfirst : (y 0).toNat + 2 * (c 0).toNat = x 0)
    (hnext : ∀ j < n, (y (j + 1)).toNat + 2 * (c (j + 1)).toNat = x (j + 1) + (c j).toNat) :
    value y (n + 1) + (c n).toNat * 2 ^ (n + 1) = ∑ j ∈ Finset.range (n + 1), x j * 2 ^ j := by
  induction n with
  | zero =>
      rw [value_succ, Finset.sum_range_succ, value_zero, Finset.sum_range_zero, ← hfirst]
      ring
  | succ n ih =>
      have hrest := ih fun j hj => hnext j (Nat.lt_succ_of_lt hj)
      have htop := hnext n (Nat.lt_succ_self n)
      rw [value_succ, Finset.sum_range_succ, ← hrest]
      calc value y (n + 1) + (y (n + 1)).toNat * 2 ^ (n + 1) + (c (n + 1)).toNat * 2 ^ (n + 1 + 1)
          = value y (n + 1) + ((y (n + 1)).toNat + 2 * (c (n + 1)).toNat) * 2 ^ (n + 1) := by ring
        _ = value y (n + 1) + (c n).toNat * 2 ^ (n + 1) + x (n + 1) * 2 ^ (n + 1) := by
            rw [htop]; ring

/--
**Rows.** Row `i` adds `p` if bit `i` of `b` is set, gives up its lowest bit and passes the
rest on; together they multiply.
-/
theorem rows {y b : ℕ → Bool} {R : ℕ → ℕ} {p n : ℕ}
    (h : ∀ i < n, (y i).toNat + 2 * R (i + 1) = R i + p * (b i).toNat) :
    value y n + 2 ^ n * R n = R 0 + p * value b n := by
  induction n with
  | zero => rw [value_zero, value_zero, pow_zero, one_mul, zero_add, mul_zero, add_zero]
  | succ n ih =>
      have hrest := ih fun i hi => h i (Nat.lt_succ_of_lt hi)
      have htop := h n (Nat.lt_succ_self n)
      calc value y (n + 1) + 2 ^ (n + 1) * R (n + 1)
          = value y n + 2 ^ n * ((y n).toNat + 2 * R (n + 1)) := by rw [value_succ]; ring
        _ = (value y n + 2 ^ n * R n) + 2 ^ n * (p * (b n).toNat) := by rw [htop]; ring
        _ = R 0 + p * value b (n + 1) := by rw [hrest, value_succ]; ring

end Ripple
