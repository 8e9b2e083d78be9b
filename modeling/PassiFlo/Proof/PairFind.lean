import PassiFlo.Proof.Pairs

/-!
# Where `find` looks

The loop runs while the index is *below* the last one, so the second component of the
last pair is never compared. Everything else is found. On an empty queue the bound is
`first - 1`: above the start of the loop when it wraps, and then the loop reads words
that are not in the queue and runs off the array.
-/

namespace PassiFlo

namespace Soft

open Loop

variable {q : Queue} {item : BitVec 32} {fuel : ℕ}

/-- The index of the first pair with the item, or `INFINITY - 1` where there is none. -/
def Located (first : ℕ) (pairs : List (BitVec 32 × BitVec 32)) (item r : BitVec 32) : Prop :=
  match pairs.findIdx? fun x => x.2 = item with
  | some k => r.toNat = first + 2 * k
  | none => r = infinity - 1

/-! ## The loop on a queue with pairs -/

/-- After `k` pairs none of which has the item. -/
structure Searching (b m : ℕ) (q : Queue) (item : BitVec 32) (k : ℕ) (v : FindVars) : Prop where
  broke : v.broke = false
  index : v.index = infinity
  i : v.i.toNat = b + 2 * k + 1
  le : k ≤ m
  missed : (pairsFrom q.data b k).findIdx? (fun x => x.2 = item) = none

/-- The item has been found in pair `k`. -/
structure Found (b m : ℕ) (q : Queue) (item : BitVec 32) (k : ℕ) (v : FindVars) : Prop where
  broke : v.broke = true
  index : v.index.toNat = b + 2 * k + 1
  lt : k < m
  first : (pairsFrom q.data b m).findIdx? (fun x => x.2 = item) = some k

/-- What pair `k` decides. -/
theorem findIdx?_pairsFrom {b k l : ℕ}
    (hmissed : (pairsFrom q.data b k).findIdx? (fun x => x.2 = item) = none) :
    (pairsFrom q.data b (k + (l + 1))).findIdx? (fun x => x.2 = item) =
      if cell q.data (b + 2 * k + 1) = item then some k
      else (pairsFrom q.data (b + 2 * (k + 1)) l).findIdx? (fun x => x.2 = item) |>.map
        (· + (k + 1)) := by
  rw [pairsFrom_add, List.findIdx?_append, hmissed, Option.none_or, pairsFrom, List.findIdx?_cons,
    length_pairsFrom]
  by_cases h : cell q.data (b + 2 * k + 1) = item
  · rw [if_pos h, if_pos (decide_eq_true h), Option.map_some, Nat.zero_add]
  · rw [if_neg h, if_neg (by simpa using h), Option.map_map]
    congr 1
    funext i
    exact (Nat.add_right_comm i 1 k).trans (Nat.add_assoc i k 1)

theorem searching_step {b m k : ℕ} {v : FindVars} (hb : b + 2 * (m + 1) ≤ maxQueueSize)
    (hv : Searching b m q item k v) (hk : k < m) :
    ∃ v', findStep q item v = some v' ∧
      (Searching b m q item (k + 1) v' ∨ Found b m q item k v') := by
  have h64 : maxQueueSize = 64 := rfl
  have hi := hv.i
  have hload : load q.data (v.i.setWidth 64) = some (cell q.data (b + 2 * k + 1)) := by
    rw [load_widen (by omega), hi]
  obtain ⟨l, rfl⟩ : ∃ l, m = k + (l + 1) := ⟨m - k - 1, by omega⟩
  have hdecide := findIdx?_pairsFrom (l := l) hv.missed
  by_cases hitem : cell q.data (b + 2 * k + 1) = item
  · refine ⟨{ v with index := v.i, broke := true }, ?_, .inr ⟨rfl, hi, by omega, ?_⟩⟩
    · rw [findStep, hload, Option.bind_eq_bind, Option.bind_some, if_pos (by simpa using hitem)]
    · rw [hdecide, if_pos hitem]
  · have hnext : (v.i + 2).toNat = b + 2 * (k + 1) + 1 :=
      (toNat_add_small (by simp; omega)).trans (by rw [hi]; rfl)
    refine ⟨{ v with i := v.i + 2 }, ?_, .inl ⟨hv.broke, hv.index, hnext, by omega, ?_⟩⟩
    · rw [findStep, hload, Option.bind_eq_bind, Option.bind_some, if_neg (by simpa using hitem)]
    · have hone := findIdx?_pairsFrom (l := 0) hv.missed
      rw [if_neg hitem] at hone
      exact hone

/-- How much is left to search. -/
def toSearch (b m : ℕ) (v : FindVars) : ℕ := if v.broke then 0 else b + 2 * m + 2 - v.i.toNat

/-- A round leaves less to search. -/
theorem searching_round {b m : ℕ} {v : FindVars} (hb : b + 2 * (m + 1) ≤ maxQueueSize)
    (hv : ∃ k, Searching b m q item k v ∨ Found b m q item k v) (hbroke : v.broke = false)
    (hlt : v.i.toNat < b + 2 * m + 1) :
    ∃ v', findStep q item v = some v' ∧
      (∃ k, Searching b m q item k v' ∨ Found b m q item k v') ∧
      toSearch b m v' < toSearch b m v := by
  obtain ⟨k, hv | hv⟩ := hv
  · have hi := hv.i
    obtain ⟨v', hstep, hv'⟩ := searching_step hb hv (by omega)
    refine ⟨v', hstep, ?_, ?_⟩
    · rcases hv' with hv' | hv'
      · exact ⟨k + 1, .inl hv'⟩
      · exact ⟨k, .inr hv'⟩
    · unfold toSearch
      rw [hbroke, hi]
      rcases hv' with hv' | hv'
      · rw [hv'.broke, hv'.i]
        simp
        omega
      · rw [hv'.broke]
        simp
        omega
  · rw [hv.broke] at hbroke
    exact absurd hbroke.symm Bool.false_ne_true

/-- **What `find` finds**: the first pair with the item, the last pair apart. -/
theorem find_spec (item : BitVec 32) {b m : ℕ} (hb : b + 2 * (m + 1) ≤ maxQueueSize)
    (hfirst : q.first.toNat = b) (hlast : q.last.toNat = b + 2 * m + 1)
    (hfuel : maxQueueSize ≤ fuel) :
    ∃ r, find fuel q item = .done r ∧ Located b (pairsFrom q.data b m) item r := by
  have h64 : maxQueueSize = 64 := rfl
  have hstart : ((q.first + 1).setWidth 32).toNat = b + 1 := by
    rw [BitVec.toNat_setWidth, BitVec.toNat_add, hfirst]
    simp
    omega
  have hguard : ∀ v : FindVars, v.i.setWidth 64 < q.last ↔ v.i.toNat < b + 2 * m + 1 := fun v => by
    rw [BitVec.lt_def, toNat_widen, hlast]
  obtain ⟨v, hrun, ⟨k, hv⟩, hexit⟩ := whileLoop_total
    (fun v : FindVars => !v.broke && decide (v.i.setWidth 64 < q.last))
    (fun v => .ofOption (findStep q item v))
    (I := fun v => ∃ k, Searching b m q item k v ∨ Found b m q item k v)
    (v := toSearch b m)
    (by
      intro v hv hcond
      rw [Bool.and_eq_true, Bool.not_eq_true', decide_eq_true_eq, hguard] at hcond
      obtain ⟨v', hstep, hv', hless⟩ := searching_round hb hv hcond.1 hcond.2
      exact ⟨v', by rw [hstep]; rfl, hv', hless⟩)
    fuel { i := (q.first + 1).setWidth 32, index := infinity, broke := false }
    ⟨0, .inl ⟨rfl, rfl, hstart, Nat.zero_le _, rfl⟩⟩
    (by simp only [toSearch, hstart]; simp; omega)
  refine ⟨v.index - 1, by rw [find, hrun]; rfl, ?_⟩
  unfold Located
  rcases hv with hv | hv
  · rw [hv.broke, Bool.not_false, Bool.true_and, decide_eq_false_iff_not, hguard, hv.i] at hexit
    have hle := hv.le
    obtain rfl : k = m := by omega
    rw [hv.missed, hv.index]
  · have hidx := hv.index
    have hsub : (v.index - 1).toNat = v.index.toNat - 1 :=
      BitVec.toNat_sub_of_le (by rw [BitVec.le_def]; simp; omega)
    rw [hv.first]
    change (v.index - 1).toNat = b + 2 * k
    omega

/-! ## The loop on an empty queue -/

/-- A round that ends has read a word of the array. -/
theorem findStep_some {v v' : FindVars} (h : findStep q item v = some v') :
    v.i.toNat < maxQueueSize ∧
      (v' = { v with index := v.i, broke := true } ∨ v' = { v with i := v.i + 2 }) := by
  rw [findStep, load, Option.bind_eq_bind] at h
  split_ifs at h with hi
  · refine ⟨by rwa [toNat_widen] at hi, ?_⟩
    rw [Option.bind_some] at h
    split_ifs at h
    · exact .inl (Option.some.inj h).symm
    · exact .inr (Option.some.inj h).symm
  · exact absurd h (by simp)

/-- Without a round, nothing is found. -/
theorem find_no_round (h : q.last.toNat ≤ ((q.first + 1).setWidth 32).toNat) (item : BitVec 32)
    (fuel : ℕ) : find fuel q item = .done (infinity - 1) := by
  have hguard : ¬ ((q.first + 1).setWidth 32).setWidth 64 < q.last := by
    rw [BitVec.lt_def, toNat_widen]
    omega
  rw [find, whileLoop_exit (by simpa using hguard)]
  rfl

/--
With a round and the bound above the array, the loop only ends at an index of the array.
-/
theorem find_overrun {r : BitVec 32}
    (hstart : ((q.first + 1).setWidth 32).toNat < q.last.toNat)
    (hlast : maxQueueSize + 2 ≤ q.last.toNat) (hrun : find fuel q item = .done r) :
    r ≠ infinity - 1 := by
  have h64 : maxQueueSize = 64 := rfl
  obtain ⟨v, hloop, hr⟩ := Outcome.bind_eq_done_iff.mp hrun
  obtain ⟨hv, hexit⟩ := whileLoop_invariant
    (I := fun v : FindVars =>
      v.broke = false ∧ v.i.toNat < q.last.toNat ∨ v.broke = true ∧ v.index.toNat < maxQueueSize)
    (by
      intro v v' hstep hcond hbody
      rcases hstep with ⟨hbroke, -⟩ | ⟨hbroke, -⟩
      · obtain ⟨hi, hv'⟩ := findStep_some (Outcome.ofOption_eq_done_iff.mp hbody)
        rcases hv' with rfl | rfl
        · exact .inr ⟨rfl, hi⟩
        · have hnext : (v.i + 2).toNat = v.i.toNat + 2 := toNat_add_small (by simp; omega)
          exact .inl ⟨hbroke, by change (v.i + 2).toNat < _; omega⟩
      · rw [hbroke] at hcond
        exact absurd hcond Bool.false_ne_true)
    fuel _ (.inl ⟨rfl, hstart⟩) hloop
  obtain rfl : v.index - 1 = r := Outcome.done.inj hr
  rcases hv with ⟨hbroke, hlt⟩ | ⟨-, hidx⟩
  · -- the loop cannot end at its bound
    have hguard : v.i.setWidth 64 < q.last := by rwa [BitVec.lt_def, toNat_widen]
    rw [hbroke, decide_eq_true hguard] at hexit
    exact absurd hexit (by decide)
  · intro hc
    have hmax : v.index = infinity := by
      rw [← BitVec.sub_add_cancel v.index 1, hc, BitVec.sub_add_cancel]
    rw [hmax] at hidx
    exact absurd hidx (by decide)

/-! ## Both -/

theorem find_mono {fuel' : ℕ} {r : BitVec 32} (hle : fuel ≤ fuel')
    (h : find fuel q item = .done r) : find fuel' q item = .done r := by
  obtain ⟨v, hloop, hr⟩ := Outcome.bind_eq_done_iff.mp h
  exact Outcome.bind_eq_done_iff.mpr ⟨v, whileLoop_mono hle _ hloop, hr⟩

/-- Where an empty queue has to be for the loop not to start. -/
theorem find_empty_iff (hq : PairRegion q) (h0 : q.size = 0) (item : BitVec 32) :
    (∃ fuel r, find fuel q item = .done r ∧ r = infinity - 1) ↔
      0 < q.first.toNat ∧ q.first.toNat + 1 < 2 ^ 32 := by
  have hlast : q.last = q.first - 1 := by
    rw [hq.last, h0]
    exact congrArg (· - 1) (BitVec.add_zero q.first)
  have h64 : maxQueueSize = 64 := rfl
  have hf := q.first.isLt
  have hstart : ((q.first + 1).setWidth 32).toNat = (q.first.toNat + 1) % 2 ^ 64 % 2 ^ 32 := by
    rw [BitVec.toNat_setWidth, BitVec.toNat_add]
    rfl
  have hend : q.last.toNat = (2 ^ 64 - 1 + q.first.toNat) % 2 ^ 64 := by
    rw [hlast, BitVec.toNat_sub]
    rfl
  constructor
  · intro hreturns
    obtain ⟨fuel, r, hrun, hr⟩ := hreturns
    by_contra hout
    exact find_overrun (by omega) (by omega) hrun hr
  · intro hbounds
    obtain ⟨hpos, hlt⟩ := hbounds
    exact ⟨0, _, find_no_round (by omega) item 0, rfl⟩

/-- An item that is not only in the last pair is found as well without it. -/
theorem located_dropLast {first : ℕ} {l : List (BitVec 32 × BitVec 32)}
    {p : BitVec 32 × BitVec 32} {r : BitVec 32}
    (h : (∃ x ∈ l ++ [p], x.2 = item) → ∃ x ∈ l, x.2 = item) :
    Located first (l ++ [p]) item r ↔ Located first l item r := by
  have hsame : (l ++ [p]).findIdx? (fun x => x.2 = item) = l.findIdx? fun x => x.2 = item := by
    cases hl : l.findIdx? (fun x => decide (x.2 = item)) with
    | some k => rw [List.findIdx?_append, hl, Option.some_or]
    | none =>
        rw [List.findIdx?_eq_none_iff] at hl ⊢
        intro x hx
        by_contra hne
        obtain ⟨y, hy, hyi⟩ := h ⟨x, hx, by simpa using hne⟩
        have := hl y hy
        simp [hyi] at this
  rw [Located, hsame, Located]

/--
**Pair lookup.** `find` is right exactly when, in a queue with pairs, the item is not in the
last pair alone, and an empty queue starts neither at 0 nor beyond the reach of an `uint32_t`.
-/
theorem find_complete_iff (hq : PairRegion q) (item : BitVec 32) :
    (∃ fuel r, find fuel q item = .done r ∧ Located q.first.toNat q.pairs item r) ↔
      (q.size = 0 → 0 < q.first.toNat ∧ q.first.toNat + 1 < 2 ^ 32) ∧
        ((∃ x ∈ q.pairs, x.2 = item) → ∃ x ∈ q.pairs.dropLast, x.2 = item) := by
  have h64 : maxQueueSize = 64 := rfl
  by_cases h0 : q.size = 0
  · have hpairs : q.pairs = [] := by rw [Queue.pairs, h0]; rfl
    rw [hpairs, ← find_empty_iff hq h0 item]
    simp [Located, h0]
  · have hb := hq.bound h0
    have hlast := hq.last_toNat h0
    have heven := hq.even
    have hpos : q.size.toNat ≠ 0 := fun h => h0 (BitVec.eq_of_toNat_eq h)
    obtain ⟨m, hm⟩ : ∃ m, q.size.toNat / 2 = m + 1 := ⟨q.size.toNat / 2 - 1, by omega⟩
    obtain ⟨p, hpairs⟩ : ∃ p, q.pairs = pairsFrom q.data q.first.toNat m ++ [p] :=
      ⟨_, by rw [Queue.pairs, hm, pairsFrom_add]; rfl⟩
    obtain ⟨r₀, hrun₀, hloc₀⟩ := find_spec (q := q) item (m := m) (by omega) rfl
      (by omega) le_rfl
    rw [hpairs, List.dropLast_concat, and_iff_right fun h => absurd h h0]
    constructor
    · intro hreturns
      obtain ⟨fuel, r, hrun, hloc⟩ := hreturns
      have hr : r = r₀ := Outcome.done.inj
        ((find_mono (le_max_left fuel maxQueueSize) hrun).symm.trans
          (find_mono (le_max_right fuel maxQueueSize) hrun₀))
      subst hr
      intro hfound
      obtain ⟨x, hx, hxi⟩ := hfound
      by_contra hnone
      -- found nowhere before the last pair, yet reported there
      have hmissed : (pairsFrom q.data q.first.toNat m).findIdx? (fun x => x.2 = item) = none :=
        List.findIdx?_eq_none_iff.mpr fun y hy => by
          by_contra hne
          exact hnone ⟨y, hy, by simpa using hne⟩
      rw [Located, hmissed] at hloc₀
      have hlastp : p.2 = item := by
        rcases List.mem_append.mp hx with hx | hx
        · exact absurd ⟨x, hx, hxi⟩ hnone
        · rw [← List.mem_singleton.mp hx]
          exact hxi
      rw [Located, List.findIdx?_append, hmissed, List.findIdx?_cons,
        if_pos (by simpa using hlastp), Option.none_or, Option.map_some, length_pairsFrom,
        hloc₀] at hloc
      have hinf : (infinity - 1).toNat = 2 ^ 32 - 2 := by decide
      omega
    · intro h
      exact ⟨_, r₀, hrun₀, (located_dropLast h).mpr hloc₀⟩

/-- Three pairs, from cell 2 on. -/
def pairsAtTwo : Queue where
  data := fun i => [0, 0, 5, 7, 3, 9, 4, 1].getD i.val 0
  first := 2
  last := 7
  size := 6

/-- The second pair is found. -/
theorem find_second_pair :
    ∃ fuel r, find fuel pairsAtTwo 9 = .done r ∧ Located 2 [(5, 7), (3, 9), (4, 1)] 9 r :=
  (find_complete_iff (q := pairsAtTwo) ⟨by decide, by decide, by decide⟩ 9).mpr
    ⟨fun h => absurd h (by decide), by decide +kernel⟩

/-- One pair, (5, 7). -/
def onePair : Queue := { data := fun i => [5, 7].getD i.val 0, first := 0, last := 1, size := 2 }

/-- The second component of an only pair is not found. -/
theorem find_only_pair :
    ¬ ∀ (q : Queue) (item : BitVec 32), PairRegion q →
      ∃ fuel r, find fuel q item = .done r ∧ Located q.first.toNat q.pairs item r := by
  intro h
  obtain ⟨fuel, r, hrun, hloc⟩ := h onePair 7 ⟨by decide, by decide, by decide⟩
  have hr : r = infinity - 1 := Outcome.done.inj ((find_mono (Nat.zero_le fuel)
    (find_no_round (q := onePair) (by decide) 7 0)).symm.trans hrun).symm
  have hidx : onePair.pairs.findIdx? (fun x => x.2 = 7) = some 0 := by decide +kernel
  rw [hr, Located, hidx] at hloc
  exact absurd hloc (by decide)

end Soft

end PassiFlo
