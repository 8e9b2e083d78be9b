import PassiFlo.Rtl.Mul
import PassiFlo.Lib.Ripple

/-!
# What the multiplier computes

Every row is a chain of full adders, and every row from 2 on adds its partial product to
what comes down from the row above. Row 1 does not: its first column adds `a[0] & b[0]`,
which is already `y[0]`, where it should add `a[1] & b[0]`. The rest of the grid
multiplies, so the error of the product is exactly the error of that one cell.
-/

namespace PassiFlo

open Ripple

/-- The full adder keeps the weight of its inputs. -/
theorem add1bit_weight (a b cin : Bool) :
    (add1bit a b cin).1.toNat + 2 * (add1bit a b cin).2.toNat =
      a.toNat + b.toNat + cin.toNat := by
  cases a <;> cases b <;> cases cin <;> rfl

namespace Mul

variable {N : ℕ} (a b : BitVec (N / 2))

/-- What the cells of row `i` take in beside `a * b[i]` and the carry of the column before. -/
def above (i j : ℕ) : Bool :=
  if i = 1 then
    if j = 0 then a.getLsbD 0 && b.getLsbD 0
    else if j = N / 2 - 1 then false else a.getLsbD (j + 1) && b.getLsbD 0
  else if j = N / 2 - 1 then carry a b (i - 1) j else rowOut a b (i - 1) (j + 1)

/-- Row 1 is wired by itself, all later rows alike. -/
theorem row_cases {i : ℕ} (hi : 1 ≤ i) : i = 1 ∨ ∃ k, i = k + 2 := by
  obtain rfl | hlt := Nat.eq_or_lt_of_le hi
  · exact .inl rfl
  · exact .inr ⟨i - 2, by omega⟩

/-- The first column of a row. -/
theorem cells_zero (hn : 2 ≤ N / 2) (i : ℕ) (hi : 1 ≤ i) :
    cells a b i 0 = mulCell (a.getLsbD 0) (b.getLsbD i) (above a b i 0) false := by
  have hlast : 0 ≠ N / 2 - 1 := by omega
  obtain rfl | ⟨k, rfl⟩ : i = 1 ∨ ∃ k, i = k + 2 := row_cases hi
  · rfl
  · rw [above, if_neg (by omega : ¬ k + 2 = 1), if_neg hlast]
    rfl

/-- The full adder does not tell its last two inputs apart. -/
theorem add1bit_swap (a b c : Bool) : add1bit a b c = add1bit a c b := by
  cases a <;> cases b <;> cases c <;> rfl

/-- The other columns of a row. -/
theorem cells_succ (i j : ℕ) (hi : 1 ≤ i) :
    cells a b i (j + 1) =
      mulCell (a.getLsbD (j + 1)) (b.getLsbD i) (above a b i (j + 1)) (carry a b i j) := by
  obtain rfl | ⟨k, rfl⟩ : i = 1 ∨ ∃ k, i = k + 2 := row_cases hi
  · by_cases hlast : j + 1 = N / 2 - 1
    · -- the last column of row 1 has `c` and `cin` the other way round
      have hab : above a b 1 (j + 1) = false := by
        rw [above, if_pos rfl, if_neg (Nat.succ_ne_zero j), if_pos hlast]
      rw [hab, mulCell, add1bit_swap]
      exact if_pos hlast
    · have hab : above a b 1 (j + 1) = (a.getLsbD (j + 2) && b.getLsbD 0) := by
        rw [above, if_pos rfl, if_neg (Nat.succ_ne_zero j), if_neg hlast]
      rw [hab]
      exact if_neg hlast
  · rw [above, if_neg (by omega : ¬ k + 2 = 1)]
    by_cases hlast : j + 1 = N / 2 - 1
    · rw [if_pos hlast]
      exact if_pos hlast
    · rw [if_neg hlast]
      exact if_neg hlast

/-- What row `i` passes down: `rowOut[i][N/2-1..1]` below `carry[i][N/2-1]`. -/
def passed (i : ℕ) : ℕ :=
  value (fun j => rowOut a b i (j + 1)) (N / 2 - 1) + (carry a b i (N / 2 - 1)).toNat *
    2 ^ (N / 2 - 1)

/-- **One row.** A ripple-carry chain. -/
theorem row_chain (hn : 2 ≤ N / 2) (i : ℕ) (hi : 1 ≤ i) :
    (rowOut a b i 0).toNat + 2 * passed a b i =
      a.toNat * (b.getLsbD i).toNat + value (above a b i) (N / 2) := by
  have hcols : N / 2 = N / 2 - 1 + 1 := by omega
  have hchain := chain (y := rowOut a b i) (c := carry a b i)
    (x := fun j => (a.getLsbD j && b.getLsbD i).toNat + (above a b i j).toNat) (n := N / 2 - 1)
    (by rw [rowOut, carry, cells_zero a b hn i hi, mulCell, add1bit_weight]; rfl)
    (fun j _ => by rw [rowOut, carry, cells_succ a b i j hi, mulCell, add1bit_weight])
  rw [← hcols] at hchain
  have hin : ∑ j ∈ Finset.range (N / 2),
      ((a.getLsbD j && b.getLsbD i).toNat + (above a b i j).toNat) * 2 ^ j =
        a.toNat * (b.getLsbD i).toNat + value (above a b i) (N / 2) := by
    rw [toNat_eq_value a, ← value_and, value, value, ← Finset.sum_add_distrib]
    exact Finset.sum_congr rfl fun j _ => add_mul ..
  have hout : value (rowOut a b i) (N / 2) + (carry a b i (N / 2 - 1)).toNat * 2 ^ (N / 2) =
      (rowOut a b i 0).toNat + 2 * passed a b i := by
    have hpow : 2 ^ (N / 2) = 2 * 2 ^ (N / 2 - 1) := by rw [← pow_succ', ← hcols]
    have hval : value (rowOut a b i) (N / 2) =
        (rowOut a b i 0).toNat + 2 * value (fun j => rowOut a b i (j + 1)) (N / 2 - 1) := by
      rw [congrArg (value (rowOut a b i)) hcols, value_succ']
    rw [hval, hpow, passed]
    ring
  rw [← hout, hchain, hin]

/-- From row 2 on a row takes in what the row above passes down. -/
theorem value_above (hn : 2 ≤ N / 2) (i : ℕ) (hi : 2 ≤ i) :
    value (above a b i) (N / 2) = passed a b (i - 1) := by
  have hcols : N / 2 = N / 2 - 1 + 1 := by omega
  have hrow : i ≠ 1 := by omega
  have htop : above a b i (N / 2 - 1) = carry a b (i - 1) (N / 2 - 1) := by
    rw [above, if_neg hrow, if_pos rfl]
  have hlow : ∀ j < N / 2 - 1, above a b i j = rowOut a b (i - 1) (j + 1) := fun j hj => by
    rw [above, if_neg hrow, if_neg (by omega)]
  rw [congrArg (value (above a b i)) hcols, value_succ, value_congr hlow, htop, passed]

/-- Row 1 takes in `a[0] & b[0]` in the place of `a[1] & b[0]`. -/
theorem value_above_one (hn : 2 ≤ N / 2) :
    2 * value (above a b 1) (N / 2) + (a.getLsbD 0 && b.getLsbD 0).toNat +
        2 * (a.getLsbD 1 && b.getLsbD 0).toNat =
      a.toNat * (b.getLsbD 0).toNat + 2 * (a.getLsbD 0 && b.getLsbD 0).toNat := by
  obtain ⟨m, hm⟩ : ∃ m, N / 2 = m + 2 := ⟨N / 2 - 2, by omega⟩
  have hmid : ∀ j < m, above a b 1 (j + 1) = (a.getLsbD (j + 2) && b.getLsbD 0) := fun j hj => by
    rw [above, if_pos rfl, if_neg (Nat.succ_ne_zero j), if_neg (by omega)]
  have hlast : above a b 1 (m + 1) = false := by
    rw [above, if_pos rfl, if_neg (Nat.succ_ne_zero m), if_pos (by omega)]
  have hfirst : above a b 1 0 = (a.getLsbD 0 && b.getLsbD 0) := rfl
  have hrow : value (above a b 1) (N / 2) = (a.getLsbD 0 && b.getLsbD 0).toNat +
      2 * value (fun j => a.getLsbD (j + 2) && b.getLsbD 0) m := by
    rw [congrArg (value (above a b 1)) hm, value_succ', value_succ, value_congr hmid, hlast,
      hfirst, Bool.toNat_false, zero_mul, add_zero]
  have hprod : a.toNat * (b.getLsbD 0).toNat = (a.getLsbD 0 && b.getLsbD 0).toNat +
      2 * ((a.getLsbD 1 && b.getLsbD 0).toNat +
        2 * value (fun j => a.getLsbD (j + 2) && b.getLsbD 0) m) := by
    rw [toNat_eq_value a, ← value_and, congrArg (value _) hm, value_succ', value_succ']
  rw [hrow, hprod]
  ring

/-- **A row from 2 on** adds its partial product to what the row above passes down. -/
theorem row_law (hn : 2 ≤ N / 2) (i : ℕ) (hi : 2 ≤ i) :
    (rowOut a b i 0).toNat + 2 * passed a b i =
      passed a b (i - 1) + a.toNat * (b.getLsbD i).toNat := by
  rw [row_chain a b hn i (by omega), value_above a b hn i hi, add_comm]

/-! ## The whole grid -/

/-- The rows from 2 on multiply. -/
theorem rows_multiply (hn : 2 ≤ N / 2) :
    value (fun i => rowOut a b (i + 2) 0) (N / 2 - 2) + 2 ^ (N / 2 - 2) * passed a b (N / 2 - 1) =
      passed a b 1 + a.toNat * value (fun i => b.getLsbD (i + 2)) (N / 2 - 2) := by
  have hrow : ∀ i < N / 2 - 2, (rowOut a b (i + 2) 0).toNat + 2 * passed a b (i + 1 + 1) =
      passed a b (i + 1) + a.toNat * (b.getLsbD (i + 2)).toNat :=
    fun i _ => row_law a b hn (i + 2) (by omega)
  have h := rows (y := fun i => rowOut a b (i + 2) 0) (b := fun i => b.getLsbD (i + 2))
    (R := fun i => passed a b (i + 1)) hrow
  have hlast : N / 2 - 2 + 1 = N / 2 - 1 := by omega
  simp only [hlast] at h
  exact h

/-- The pins of `y`, from the lowest. -/
theorem value_y (hN : Even N) (h4 : 4 ≤ N) :
    value (y a b) N = (a.getLsbD 0 && b.getLsbD 0).toNat + 2 * (rowOut a b 1 0).toNat +
      4 * (value (fun i => rowOut a b (i + 2) 0) (N / 2 - 2) +
        2 ^ (N / 2 - 2) * passed a b (N / 2 - 1)) := by
  obtain ⟨m, hm⟩ : ∃ m, N = 2 * (m + 2) := ⟨N / 2 - 2, by grind⟩
  have hhalf : N / 2 = m + 2 := by omega
  have hy0 : y a b 0 = (a.getLsbD 0 && b.getLsbD 0) := rfl
  have hy1 : y a b 1 = rowOut a b 1 0 := by
    rw [y, if_neg Nat.one_ne_zero, if_pos (by omega)]
  have hlow : ∀ i < m, y a b (i + 2) = rowOut a b (i + 2) 0 := fun i hi => by
    rw [y, if_neg (by omega), if_pos (by omega)]
  have hhigh : ∀ j < m + 1, y a b (m + j + 2) = rowOut a b (m + 1) (j + 1) := fun j hj => by
    rw [y, if_neg (by omega), if_neg (by omega), if_pos (by omega)]
    congr 1 <;> omega
  have htop : y a b (m + (m + 1) + 2) = carry a b (m + 1) (m + 1) := by
    rw [y, if_neg (by omega), if_neg (by omega), if_neg (by omega)]
    congr 1 <;> omega
  have hsplit : value (y a b) N = (y a b 0).toNat + 2 * ((y a b 1).toNat +
      2 * (value (fun i => y a b (i + 2)) (m + (m + 1 + 1)))) := by
    have hlen : N = m + (m + 1 + 1) + 1 + 1 := by omega
    rw [congrArg (value (y a b)) hlen, value_succ', value_succ']
  have h1 : N / 2 - 1 = m + 1 := by omega
  have h2 : N / 2 - 2 = m := by omega
  rw [hsplit, value_add, value_succ (fun j => y a b (m + j + 2)), value_congr hlow,
    value_congr hhigh, htop, hy0, hy1, passed, h1, h2]
  ring

/-- The two lowest bits of a factor apart. -/
theorem toNat_low_bits (hn : 2 ≤ N / 2) :
    b.toNat = (b.getLsbD 0).toNat + 2 * ((b.getLsbD 1).toNat +
      2 * value (fun i => b.getLsbD (i + 2)) (N / 2 - 2)) := by
  have hlen : N / 2 = N / 2 - 2 + 1 + 1 := by omega
  rw [toNat_eq_value b, congrArg (value _) hlen, value_succ', value_succ']

/-- **The product and the miswired cell.** -/
theorem mul_weight (hN : Even N) (h4 : 4 ≤ N) :
    (mul a b).toNat + 2 * (a.getLsbD 1 && b.getLsbD 0).toNat =
      a.toNat * b.toNat + 2 * (a.getLsbD 0 && b.getLsbD 0).toNat := by
  have hn : 2 ≤ N / 2 := by omega
  have hb := toNat_low_bits b hn
  have hrow := row_chain a b hn 1 le_rfl
  have hone := value_above_one a b hn
  rw [mul, toNat_ofFnLE, value_y a b hN h4, rows_multiply a b hn, hb]
  linarith

end Mul

/-! ## The rows after the first -/

/-- The pin of a row. -/
theorem mul_getLsbD {N : ℕ} (a b : BitVec (N / 2)) {i : ℕ} (h1 : 1 ≤ i) (hi : i < N / 2) :
    (mul a b).getLsbD i = Mul.rowOut a b i 0 := by
  have hlt : i < N := by omega
  have h0 : i ≠ 0 := by omega
  rw [mul, BitVec.getLsbD_ofFnLE, dif_pos hlt]
  change Mul.y a b i = _
  rw [Mul.y, if_neg h0, if_pos hi]

/--
**The row law.** From row 2 on, the pin of a row and what the row passes down hold what the
row above passes down and the partial product of the row. Whatever is wrong with a product
has come out of row 1.
-/
theorem mul_row_law {N : ℕ} (hN : Even N) (h6 : 6 ≤ N) (a b : BitVec (N / 2)) :
    (∀ i, 2 ≤ i → i ≤ N / 2 - 1 →
      ((mul a b).getLsbD i).toNat + 2 * Mul.passed a b i =
        Mul.passed a b (i - 1) + a.toNat * (b.getLsbD i).toNat) ∧
      (mul a b).toNat >>> 2 = Mul.passed a b 1 + a.toNat * (b.toNat >>> 2) := by
  have hn : 2 ≤ N / 2 := by omega
  constructor
  · intro i h2 hi
    rw [mul_getLsbD a b (by omega) (by omega)]
    exact Mul.row_law a b hn i h2
  · have hy : (mul a b).toNat = _ := (toNat_ofFnLE _).trans (Mul.value_y a b hN (by omega))
    have hb := Mul.toNat_low_bits b hn
    have hbit : ∀ x : Bool, x.toNat ≤ 1 := Bool.toNat_le
    have hlow := hbit (a.getLsbD 0 && b.getLsbD 0)
    have hpin := hbit (Mul.rowOut a b 1 0)
    have hb0 := hbit (b.getLsbD 0)
    have hb1 := hbit (b.getLsbD 1)
    rw [Mul.rows_multiply a b hn] at hy
    have hhigh : b.toNat >>> 2 = value (fun i => b.getLsbD (i + 2)) (N / 2 - 2) := by
      rw [Nat.shiftRight_eq_div_pow]
      omega
    rw [hhigh, Nat.shiftRight_eq_div_pow]
    omega

/-- The rows of 7 times 5 with four columns. -/
theorem mul_rows_seven_five :
    (∀ i, 2 ≤ i → i ≤ 3 → ((mul (N := 8) 7#4 5#4).getLsbD i).toNat +
        2 * Mul.passed (N := 8) 7#4 5#4 i =
      Mul.passed (N := 8) 7#4 5#4 (i - 1) + 7 * ((5#4).getLsbD i).toNat) ∧
      (mul (N := 8) 7#4 5#4).toNat >>> 2 = Mul.passed (N := 8) 7#4 5#4 1 + 7 * 1 :=
  mul_row_law (N := 8) (by decide) (by decide) 7#4 5#4

/-! ## The product -/

/--
**The array multiplier.** Its output is the product exactly when `b[0]` is clear or the two
lowest bits of `a` agree.
-/
theorem mul_eq_iff {N : ℕ} (hN : Even N) (h4 : 4 ≤ N) (a b : BitVec (N / 2)) :
    (mul a b).toNat = a.toNat * b.toNat ↔
      b.getLsbD 0 = false ∨ a.getLsbD 0 = a.getLsbD 1 := by
  have h := Mul.mul_weight a b hN h4
  cases hb : b.getLsbD 0 with
  | false =>
      rw [hb, Bool.and_false, Bool.and_false] at h
      exact iff_of_true (by omega) (.inl rfl)
  | true =>
      rw [hb, Bool.and_true, Bool.and_true] at h
      have hbits : ∀ x y : Bool, x.toNat = y.toNat ↔ x = y := by decide
      rw [or_iff_right (by decide : ¬ true = false), ← hbits]
      omega

/-- 3 times 6 on the smallest grid with an inner column. -/
theorem mul_three_six : (mul (N := 6) 3#3 6#3).toNat = (3#3 : BitVec 3).toNat * 6 :=
  (mul_eq_iff (N := 6) (by decide) (by decide) 3#3 6#3).mpr (.inl rfl)

/-- 1 times 1 is 3. -/
theorem mul_one_one :
    ¬ ∀ (N : ℕ), Even N → 4 ≤ N → ∀ a b : BitVec (N / 2),
      (mul a b).toNat = a.toNat * b.toNat := by
  intro h
  have hm := h 4 (by decide) le_rfl 1#2 1#2
  revert hm
  decide +kernel

end PassiFlo
