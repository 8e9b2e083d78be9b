import PassiFlo.Soft.PairQueue

/-!
# Cells, pairs and the live region

What `sort` and `find` share: single words of the array, the list of pairs they make up,
and the numbers behind the indices of a region.
-/

namespace PassiFlo

namespace Soft

variable {data : Fin maxQueueSize → BitVec 32} {q : Queue}

/-! ## Cells -/

theorem toNat_widen (i : BitVec 32) : (i.setWidth 64).toNat = i.toNat :=
  BitVec.toNat_setWidth_of_le (by decide)

theorem toNat_add_small {i k : BitVec 32} (h : i.toNat + k.toNat < 2 ^ 32) :
    (i + k).toNat = i.toNat + k.toNat := by
  rw [BitVec.toNat_add, Nat.mod_eq_of_lt h]

theorem cell_update {n : ℕ} (h : n < maxQueueSize) (value : BitVec 32) (k : ℕ) :
    cell (Function.update data ⟨n, h⟩ value) k = if k = n then value else cell data k := by
  unfold cell
  by_cases hk : k = n
  · rw [if_pos hk, dif_pos (hk ▸ h)]
    subst hk
    exact Function.update_self ..
  · rw [if_neg hk]
    split_ifs with hlt
    · exact Function.update_of_ne (fun he => hk (Fin.mk.inj_iff.mp he)) ..
    · rfl

theorem load_widen {i : BitVec 32} (h : i.toNat < maxQueueSize) :
    load data (i.setWidth 64) = some (cell data i.toNat) := by
  have hw := toNat_widen i
  have h64 : (i.setWidth 64).toNat < maxQueueSize := by omega
  rw [load, dif_pos h64, cell, dif_pos h]
  exact congrArg _ (congrArg data (Fin.ext hw))

/-! ## Pairs -/

theorem pairsFrom_add (data : Fin maxQueueSize → BitVec 32) (n k l : ℕ) :
    pairsFrom data n (k + l) = pairsFrom data n k ++ pairsFrom data (n + 2 * k) l := by
  induction k generalizing n with
  | zero => rw [Nat.zero_add, Nat.mul_zero, Nat.add_zero]; rfl
  | succ k ih =>
      have hstart : n + 2 + 2 * k = n + 2 * (k + 1) := by omega
      rw [Nat.add_right_comm, pairsFrom, ih, pairsFrom, List.cons_append, hstart]

@[simp] theorem length_pairsFrom (data : Fin maxQueueSize → BitVec 32) (n m : ℕ) :
    (pairsFrom data n m).length = m := by
  induction m generalizing n with
  | zero => rfl
  | succ m ih => rw [pairsFrom, List.length_cons, ih]

theorem pairsFrom_congr {d d' : Fin maxQueueSize → BitVec 32} {n m : ℕ}
    (h : ∀ i, n ≤ i → i < n + 2 * m → cell d i = cell d' i) :
    pairsFrom d n m = pairsFrom d' n m := by
  induction m generalizing n with
  | zero => rfl
  | succ m ih =>
      rw [pairsFrom, pairsFrom, h n (by omega) (by omega), h (n + 1) (by omega) (by omega),
        ih fun i h1 h2 => h i (by omega) (by omega)]

/-! ## The region -/

/-- The numbers of a region. -/
theorem PairRegion.last_toNat (hq : PairRegion q) (h0 : q.size ≠ 0) :
    q.last.toNat + 1 = q.first.toNat + q.size.toNat := by
  have h64 : maxQueueSize = 64 := rfl
  have hb := hq.bound h0
  have hpos : 0 < q.size.toNat := 
    Nat.pos_of_ne_zero fun h => h0 (BitVec.eq_of_toNat_eq h)
  rw [hq.last, BitVec.toNat_sub, BitVec.toNat_add]
  simp
  omega

end Soft

end PassiFlo
