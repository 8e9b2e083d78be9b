import PassiFlo.Proof.Pairs
import PassiFlo.Lib.Bubble

/-!
# The queue sorts its pairs

The inner loop of `sort` is a pass of bubble sort over the live pairs, the outer loop
makes one pass for each pair, and neither leaves the live region.
-/

namespace PassiFlo

namespace Soft

open Loop Bubble

variable {c : Cells} {q : Queue}

/-! ## Accesses -/

theorem get_spec {i : BitVec 32} (h : i.toNat < maxQueueSize) :
    c.get i = some (cell c.data i.toNat, { c with accessed := i :: c.accessed }) := by
  rw [Cells.get, load_widen h]
  rfl

theorem set_spec {i : BitVec 32} (h : i.toNat < maxQueueSize) (value : BitVec 32) :
    ∃ d, c.set i value = some { data := d, accessed := i :: c.accessed } ∧
      ∀ k, cell d k = if k = i.toNat then value else cell c.data k := by
  have hw := toNat_widen i
  have h64 : (i.setWidth 64).toNat < maxQueueSize := by omega
  refine ⟨Function.update c.data ⟨(i.setWidth 64).toNat, h64⟩ value, ?_, fun k => ?_⟩
  · rw [Cells.set, store, dif_pos h64]
    rfl
  · rw [cell_update h64, hw]

theorem swap_spec {i j : BitVec 32} (hi : i.toNat < maxQueueSize) (hj : j.toNat < maxQueueSize) :
    ∃ d, swap c i j = some { data := d, accessed := j :: i :: j :: i :: c.accessed } ∧
      ∀ k, cell d k = if k = j.toNat then cell c.data i.toNat
        else if k = i.toNat then cell c.data j.toNat else cell c.data k := by
  obtain ⟨d, hd, hcell⟩ := set_spec (c := { c with accessed := j :: i :: c.accessed }) hi
    (cell c.data j.toNat)
  obtain ⟨d', hd', hcell'⟩ := set_spec
    (c := { data := d, accessed := i :: j :: i :: c.accessed }) hj (cell c.data i.toNat)
  refine ⟨d', ?_, fun k => ?_⟩
  · simp only [swap, get_spec hi, get_spec hj, Option.bind_eq_bind, Option.bind_some, hd, hd']
  · rw [hcell', hcell]

/-! ## One comparison -/

/-- What pairs are sorted by. -/
abbrev key (p : BitVec 32 × BitVec 32) : ℕ := p.1.toNat

/-- **One round of the inner loop** is a pass over two pairs, and touches nothing else. -/
theorem compareSwap_spec {j : BitVec 32} (h : j.toNat + 3 < maxQueueSize) :
    ∃ c', compareSwap (j, c) = some (j + 2, c') ∧
      pairsFrom c'.data j.toNat 2 = Bubble.pass key (pairsFrom c.data j.toNat 2) ∧
      (∀ k, k < j.toNat ∨ j.toNat + 4 ≤ k → cell c'.data k = cell c.data k) ∧
      ∀ i ∈ c'.accessed, i ∈ c.accessed ∨ j.toNat ≤ i.toNat ∧ i.toNat ≤ j.toNat + 3 := by
  have h64 : maxQueueSize = 64 := rfl
  have h1 : (j + 1).toNat = j.toNat + 1 := toNat_add_small (by simp; omega)
  have h2 : (j + 2).toNat = j.toNat + 2 := toNat_add_small (by simp; omega)
  have h3 : (j + 3).toNat = j.toNat + 3 := toNat_add_small (by simp; omega)
  have hnext : ∀ c : Cells, c.get (j + 2) = some (cell c.data (j.toNat + 2),
      { c with accessed := (j + 2) :: c.accessed }) := fun c => by
    rw [get_spec (by omega), h2]
  have hthis : ∀ c : Cells, c.get j = some (cell c.data j.toNat,
      { c with accessed := j :: c.accessed }) := fun c => get_spec (by omega)
  by_cases hlt : cell c.data (j.toNat + 2) < cell c.data j.toNat
  · obtain ⟨d, hd, hcell⟩ := swap_spec
      (c := { c with accessed := j :: (j + 2) :: c.accessed }) (i := j) (j := j + 2)
      (by omega) (by omega)
    obtain ⟨d', hd', hcell'⟩ := swap_spec
      (c := { data := d, accessed := (j + 2) :: j :: (j + 2) :: j :: j :: (j + 2) :: c.accessed })
      (i := j + 1) (j := j + 3) (by omega) (by omega)
    simp only [h1, h2, h3] at hcell hcell'
    have hcells : pairsFrom d' j.toNat 2 =
        [(cell c.data (j.toNat + 2), cell c.data (j.toNat + 3)),
          (cell c.data j.toNat, cell c.data (j.toNat + 1))] := by
      simp [pairsFrom, hcell, hcell']
    refine ⟨⟨d', (j + 3) :: (j + 1) :: (j + 3) :: (j + 1) :: (j + 2) :: j :: (j + 2) :: j :: j ::
      (j + 2) :: c.accessed⟩, ?_, ?_, fun k hk => ?_, ?_⟩
    · simp only [compareSwap, hnext, hthis, Option.bind_eq_bind, Option.bind_some, if_pos hlt, hd,
        hd']
    · rw [hcells]
      exact (if_pos hlt).symm
    · rw [hcell', if_neg (by omega), if_neg (by omega), hcell, if_neg (by omega),
        if_neg (by omega)]
    · intro i hi
      simp only [List.mem_cons] at hi
      rcases hi with rfl | rfl | rfl | rfl | rfl | rfl | rfl | rfl | rfl | rfl | hi <;>
        first | exact .inl hi | exact .inr (by omega)
  · refine ⟨{ c with accessed := j :: (j + 2) :: c.accessed }, ?_, ?_, fun k _ => rfl, ?_⟩
    · simp only [compareSwap, hnext, hthis, Option.bind_eq_bind, Option.bind_some, if_neg hlt]
    · exact (if_neg hlt).symm
    · intro i hi
      simp only [List.mem_cons] at hi
      rcases hi with rfl | rfl | hi <;> first | exact .inl hi | exact .inr (by omega)

/-! ## The inner loop -/

/-- Nothing outside the `m` pairs from index `b` on has been touched. -/
structure Within (b m : ℕ) (data : Fin maxQueueSize → BitVec 32) (c : Cells) : Prop where
  accessed : ∀ i ∈ c.accessed, b ≤ i.toNat ∧ i.toNat < b + 2 * m
  frame : ∀ k, k < b ∨ b + 2 * m ≤ k → cell c.data k = cell data k

/-- After `k` comparisons of a pass: what is done and what is left give the result of the pass. -/
structure Passing (b m : ℕ) (data : Fin maxQueueSize → BitVec 32)
    (goal : List (BitVec 32 × BitVec 32)) (k : ℕ) (v : BitVec 32 × Cells) : Prop
    extends Within b m data v.2 where
  index : v.1.toNat = b + 2 * k
  left : k < m
  result : pairsFrom v.2.data b k ++ Bubble.pass key (pairsFrom v.2.data (b + 2 * k) (m - k)) = goal

/-- One comparison at the head of a pass. -/
theorem pass_step {x y x' y' : BitVec 32 × BitVec 32} (h : [x', y'] = Bubble.pass key [x, y])
    (l : List (BitVec 32 × BitVec 32)) :
    Bubble.pass key (x :: y :: l) = x' :: Bubble.pass key (y' :: l) := by
  rw [pass_cons_cons] at h ⊢
  split_ifs at h ⊢ <;> simp_all

theorem passing_step {b m : ℕ} {data : Fin maxQueueSize → BitVec 32}
    {goal : List (BitVec 32 × BitVec 32)} {k : ℕ} {v : BitVec 32 × Cells}
    (hb : b + 2 * m ≤ maxQueueSize) (hv : Passing b m data goal k v) (hk : k + 1 < m) :
    ∃ v', compareSwap v = some v' ∧ Passing b m data goal (k + 1) v' := by
  have h64 : maxQueueSize = 64 := rfl
  obtain ⟨j, c⟩ := v
  have hj : j.toNat = b + 2 * k := hv.index
  obtain ⟨c', hrun, hpair, hframe, hacc⟩ := compareSwap_spec (c := c) (j := j) (by omega)
  refine ⟨_, hrun, ⟨⟨fun i hi => ?_, fun i hi => ?_⟩, ?_, hk, ?_⟩⟩
  · rcases hacc i hi with hi | hi
    · exact hv.accessed i hi
    · omega
  · exact (hframe i (by omega)).trans (hv.frame i hi)
  · exact (toNat_add_small (by simp; omega)).trans (by rw [hj]; rfl)
  · obtain ⟨l, hl⟩ : ∃ l, m - k = l + 2 := ⟨m - k - 2, by omega⟩
    have hres := hv.result
    have hdone : pairsFrom c'.data b k = pairsFrom c.data b k :=
      pairsFrom_congr fun i h1 h2 => hframe i (by omega)
    have hleft : pairsFrom c'.data (b + 2 * k + 4) l = pairsFrom c.data (b + 2 * k + 4) l :=
      pairsFrom_congr fun i h1 h2 => hframe i (by omega)
    rw [hj] at hpair
    rw [hl] at hres
    have hnext : m - (k + 1) = l + 1 := by omega
    rw [hnext, ← hres, pairsFrom_add, hdone, List.append_assoc]
    congr 1
    exact ((pass_step hpair _).trans (by rw [← hleft]; rfl)).symm

/-- The guard of the inner loop, in numbers. -/
theorem inner_guard {b m : ℕ} (hlast : q.last.toNat + 1 = b + 2 * m) (hm : 0 < m) (j : BitVec 32) :
    j.setWidth 64 < q.last - 1 ↔ j.toNat + 2 < b + 2 * m := by
  have hsub : (q.last - 1).toNat = q.last.toNat - 1 :=
    BitVec.toNat_sub_of_le (by rw [BitVec.le_def]; simp; omega)
  rw [BitVec.lt_def, toNat_widen, hsub]
  omega

/-- **The inner loop is one pass.** -/
theorem sortPass_spec {b m : ℕ} {data : Fin maxQueueSize → BitVec 32} (hm : 0 < m)
    (hb : b + 2 * m ≤ maxQueueSize) (hfirst : q.first.toNat = b)
    (hlast : q.last.toNat + 1 = b + 2 * m) (hc : Within b m data c) {fuel : ℕ}
    (hfuel : maxQueueSize ≤ fuel) :
    ∃ c', sortPass fuel q c = .done c' ∧ Within b m data c' ∧
      pairsFrom c'.data b m = Bubble.pass key (pairsFrom c.data b m) := by
  have h64 : maxQueueSize = 64 := rfl
  have hguard := inner_guard (q := q) hlast hm
  have hstart : (q.first.setWidth 32).toNat = b := by
    rw [BitVec.toNat_setWidth, hfirst, Nat.mod_eq_of_lt (by omega)]
  obtain ⟨v, hrun, ⟨k, hv⟩, hexit⟩ := whileLoop_total
    (fun v : BitVec 32 × Cells => decide (v.1.setWidth 64 < q.last - 1))
    (fun v => .ofOption (compareSwap v))
    (I := fun v => ∃ k, Passing b m data (Bubble.pass key (pairsFrom c.data b m)) k v)
    (v := fun v => b + 2 * m - v.1.toNat)
    (by
      intro v hinv hcond
      obtain ⟨k, hv⟩ := hinv
      have hlt := (hguard v.1).mp (of_decide_eq_true hcond)
      have hidx := hv.index
      obtain ⟨v', hstep, hv'⟩ := passing_step hb hv (by omega)
      have hidx' := hv'.index
      exact ⟨v', by rw [hstep]; rfl, ⟨k + 1, hv'⟩, by omega⟩)
    fuel (q.first.setWidth 32, c)
    ⟨0, ⟨hc, hstart, hm, rfl⟩⟩
    (by simp only [hstart]; omega)
  refine ⟨v.2, ?_, hv.toWithin, ?_⟩
  · rw [sortPass, hrun]
    rfl
  · -- only the last pair is left, and a pass over one pair does nothing
    have hge := mt (hguard v.1).mpr (of_decide_eq_false hexit)
    have hidx := hv.index
    have hleft := hv.left
    obtain ⟨l, rfl⟩ : ∃ l, m = l + 1 := ⟨m - 1, by omega⟩
    obtain rfl : k = l := by omega
    have hres := hv.result
    rw [Nat.add_sub_cancel_left] at hres
    rw [← hres, pairsFrom_add]
    rfl

/-! ## The outer loop -/

/-- After `i` passes. -/
structure Sorting (b m : ℕ) (data : Fin maxQueueSize → BitVec 32) (v : BitVec 32 × Cells) : Prop
    extends Within b m data v.2 where
  index : v.1.toNat ≤ m
  passes : pairsFrom v.2.data b m = (Bubble.pass key)^[v.1.toNat] (pairsFrom data b m)

theorem sorting_step {b m : ℕ} {data : Fin maxQueueSize → BitVec 32} {v : BitVec 32 × Cells}
    (hb : b + 2 * m ≤ maxQueueSize) (hfirst : q.first.toNat = b)
    (hlast : q.last.toNat + 1 = b + 2 * m) {fuel : ℕ} (hfuel : maxQueueSize ≤ fuel)
    (hv : Sorting b m data v) (hlt : v.1.toNat < m) :
    ∃ c', sortPass fuel q v.2 = .done c' ∧ Sorting b m data (v.1 + 1, c') := by
  have h64 : maxQueueSize = 64 := rfl
  have hone : (v.1 + 1).toNat = v.1.toNat + 1 := toNat_add_small (by simp; omega)
  obtain ⟨c', hrun, hwithin, hpass⟩ := sortPass_spec (by omega) hb hfirst hlast hv.toWithin hfuel
  refine ⟨c', hrun, ⟨hwithin, ?_, ?_⟩⟩
  · change (v.1 + 1).toNat ≤ m
    omega
  · change _ = (Bubble.pass key)^[(v.1 + 1).toNat] _
    rw [hone, Function.iterate_succ_apply', ← hv.passes, hpass]

/-- The guard of the outer loop, in numbers. -/
theorem outer_guard (i : BitVec 32) :
    i.setWidth 64 < q.size >>> 1 ↔ i.toNat < q.size.toNat / 2 := by
  rw [BitVec.lt_def, toNat_widen, BitVec.toNat_ushiftRight, Nat.shiftRight_eq_div_pow, pow_one]

/-- **The whole run.** -/
theorem sort_spec (hq : PairRegion q) {fuel : ℕ} (hfuel : maxQueueSize ≤ fuel) :
    ∃ c, sort fuel q = .done ({ q with data := c.data }, c.accessed) ∧
      Within q.first.toNat (q.size.toNat / 2) q.data c ∧
      pairsFrom c.data q.first.toNat (q.size.toNat / 2) =
        (Bubble.pass key)^[q.size.toNat / 2] q.pairs := by
  have h64 : maxQueueSize = 64 := rfl
  have heven := hq.even
  obtain ⟨v, hrun, hv, hexit⟩ := whileLoop_total
    (fun v : BitVec 32 × Cells => decide (v.1.setWidth 64 < q.size >>> 1))
    (fun v => do
      let data ← sortPass fuel q v.2
      return (v.1 + 1, data))
    (I := Sorting q.first.toNat (q.size.toNat / 2) q.data)
    (v := fun v => q.size.toNat / 2 - v.1.toNat)
    (by
      intro v hv hcond
      have hlt := (outer_guard v.1).mp (of_decide_eq_true hcond)
      have h0 : q.size ≠ 0 := fun h => by rw [h] at hlt; exact absurd hlt (Nat.not_lt_zero _)
      have hb := hq.bound h0
      have hlast := hq.last_toNat h0
      have hone : (v.1 + 1).toNat = v.1.toNat + 1 := toNat_add_small (by simp; omega)
      obtain ⟨c', hpass, hv'⟩ := sorting_step (q := q) (by omega) rfl (by omega) hfuel hv hlt
      exact ⟨_, by rw [hpass]; rfl, hv', by change _ - (v.1 + 1).toNat < _; omega⟩)
    fuel (0, { data := q.data, accessed := [] })
    ⟨⟨fun i hi => absurd hi List.not_mem_nil, fun k _ => rfl⟩, Nat.zero_le _, rfl⟩
    (by
      by_cases h0 : q.size = 0
      · rw [h0]; exact Nat.zero_le _
      · have hb := hq.bound h0
        omega)
  have hge := mt (outer_guard v.1).mpr (of_decide_eq_false hexit)
  have hidx : v.1.toNat = q.size.toNat / 2 := Nat.le_antisymm hv.index (Nat.le_of_not_lt hge)
  refine ⟨v.2, ?_, hv.toWithin, ?_⟩
  · rw [sort, hrun]
    rfl
  · rw [hv.passes, hidx]
    rfl

/--
**Pair sort.** The run ends, accesses nothing outside the live region, and leaves the
pairs in ascending order of their first components, pairs with the same first component
in the order they had, and everything else as it was.
-/
theorem sort_pairs (hq : PairRegion q) {fuel : ℕ} (hfuel : maxQueueSize ≤ fuel) :
    ∃ q' accessed, sort fuel q = .done (q', accessed) ∧
      (∀ i ∈ accessed,
        q.first.toNat ≤ i.toNat ∧ i.toNat < q.first.toNat + q.size.toNat) ∧
      q'.pairs.Perm q.pairs ∧
      q'.pairs.Pairwise (fun x y => x.1 ≤ y.1) ∧
      (∀ k : BitVec 32, q'.pairs.filter (fun x => x.1 = k) = q.pairs.filter fun x => x.1 = k) ∧
      (∀ i : Fin maxQueueSize,
        i.val < q.first.toNat ∨ q.first.toNat + q.size.toNat ≤ i.val → q'.data i = q.data i) ∧
      q'.first = q.first ∧ q'.last = q.last ∧ q'.size = q.size := by
  obtain ⟨c, hrun, hwithin, hpairs⟩ := sort_spec hq hfuel
  have heven := hq.even
  have hlen : q.pairs.length = q.size.toNat / 2 := length_pairsFrom ..
  have hsorted : ({ q with data := c.data } : Queue).pairs =
      (Bubble.pass key)^[q.pairs.length] q.pairs := by rw [hlen]; exact hpairs
  refine ⟨_, _, hrun, fun i hi => ?_, ?_, ?_, fun k => ?_, fun i hi => ?_, rfl, rfl, rfl⟩
  · have hin := hwithin.accessed i hi
    omega
  · rw [hsorted]
    exact iterate_perm key _ _
  · rw [hsorted]
    exact iterate_sorted key _
  · have hkey : (fun x : BitVec 32 × BitVec 32 => decide (x.1 = k)) =
        fun x => decide (key x = k.toNat) := by
      funext x
      exact decide_eq_decide.mpr BitVec.toNat_inj.symm
    rw [hsorted, hkey]
    exact iterate_filter key _ _ _
  · have hcell := hwithin.frame i.val (by omega)
    unfold cell at hcell
    rwa [dif_pos i.isLt, dif_pos i.isLt] at hcell

/-- Three pairs at indices 2 to 7, two of them with the same first component. -/
def threePairs : Queue :=
  { data := fun i => [0, 0, 9, 1, 4, 2, 9, 3].getD i.val 0, first := 2, last := 7, size := 6 }

theorem sort_pairs_three : ∃ q' accessed, sort maxQueueSize threePairs = .done (q', accessed) ∧
    q'.pairs.Pairwise (fun x y => x.1 ≤ y.1) ∧
    q'.pairs.filter (fun x => x.1 = 9) = [(9, 1), (9, 3)] := by
  obtain ⟨q', accessed, hrun, -, -, hsorted, hstable, -⟩ :=
    sort_pairs (q := threePairs) ⟨by decide, by decide, by decide⟩ le_rfl
  exact ⟨q', accessed, hrun, hsorted, (hstable 9).trans (by decide +kernel)⟩

end Soft

end PassiFlo
