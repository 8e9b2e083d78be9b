import PassiFlo.Proof.GreedyRoute
import PassiFlo.Proof.Generator

/-!
# How long a path gets

A level that is down stays down until one batch of twenty random numbers puts one of its
nodes up. `greedy_path` writes a node for every batch, and no bound stops it: the length
of the path is a matter of where in the stream the good batches are. They never run out,
unless the state of the generator is 0.
-/

namespace PassiFlo

namespace Soft

namespace Dtn

open Loop

variable {network : Network} {state : BitVec 64} {w : Walk}

/-! ## The numbers -/

/-- The twenty numbers from `state` on put a node of their level up. -/
def goodBatch (state : BitVec 64) : Bool :=
  (List.range netNodes).any fun i => drawsUp (rand^[5 * i + 1] state)

/-- How many of the first batches do. -/
def goodBatches : ℕ → BitVec 64 → ℕ
  | 0, _ => 0
  | n + 1, state => (goodBatch state).toNat + goodBatches n (rand^[20] state)

/-- The whole level is down. -/
def levelDown (network : Network) (level : ℕ) : Bool :=
  (List.range netNodes).all fun i => !network.up (level * netNodes + i)

/-- How many of the levels after this one are down. -/
def downAfter (network : Network) (level : ℕ) : ℕ :=
  (List.range' (level + 1) (netLevels - (level + 1))).countP (levelDown network)

theorem downAfter_last {level : ℕ} (h : 3 ≤ level) : downAfter network level = 0 := by
  have hl : netLevels - (level + 1) = 0 := by
    have hn : netLevels = 4 := rfl
    omega
  rw [downAfter, hl]
  rfl

/-- The next level and those after it. -/
theorem downAfter_eq {level : ℕ} (h : level < 3) :
    downAfter network level =
      (levelDown network (level + 1)).toNat + downAfter network (level + 1) := by
  have hn : netLevels = 4 := rfl
  obtain ⟨k, hk⟩ : ∃ k, netLevels - (level + 1) = k + 1 := ⟨2 - level, by omega⟩
  have hrest : netLevels - (level + 1 + 1) = k := by omega
  rw [downAfter, downAfter, hk, hrest, List.range'_succ, List.countP_cons, Nat.add_comm]
  cases levelDown network (level + 1) <;> rfl

/-- Levels are counted node by node. -/
theorem downAfter_congr {network' : Network} {level : ℕ}
    (h : ∀ n, (level + 1) * 4 ≤ n → network'.get n = network.get n) :
    downAfter network' level = downAfter network level := by
  refine List.countP_congr fun l hl => ?_
  obtain ⟨hle, -⟩ := List.mem_range'_1.mp hl
  have hsame : levelDown network' l = levelDown network l := by
    unfold levelDown
    refine congrArg (List.all _) (funext fun i => ?_)
    have hn : l * netNodes = l * 4 := rfl
    rw [up_of_get (h (l * netNodes + i) (by omega))]
  rw [hsame]

/-- A new status puts the level up exactly if the batch is good. -/
theorem levelDown_refreshed {network' : Network} {level : ℕ}
    (href : Refreshed network state (level * netNodes) netNodes network') :
    levelDown network' level = !goodBatch state := by
  rw [levelDown, goodBatch, ← List.not_any_eq_all_not]
  congr 1
  rw [Bool.eq_iff_iff, List.any_eq_true, List.any_eq_true]
  refine exists_congr fun i => and_congr_right fun hi => ?_
  rw [href.up i (List.mem_range.mp hi)]

/-! ## The rounds -/

/-- The level the walk is on. -/
abbrev Walk.level (w : Walk) : ℕ := w.currentNode / 4

/-- After a hop the walk is one level on, and that level was not down. -/
theorem hop_levels {i : Fin netNodes} (hcurrent : w.currentNode < recieverIndex)
    (hi : Cheapest w.network w.currentNode (nextLevel w.currentNode)
      (neighborCount w.currentNode) i) :
    (w.hop i).level = w.level + 1 ∧
      downAfter w.network w.level = downAfter w.network (w.level + 1) := by
  have hr : recieverIndex = 16 := rfl
  have hnext := nextLevel_add hcurrent hi.lt
  have hlevel : (w.hop i).level = w.level + 1 := by
    change (nextLevel w.currentNode + i) / 4 = w.currentNode / 4 + 1
    rw [nextLevel_eq] at hnext ⊢
    omega
  refine ⟨hlevel, ?_⟩
  rcases Nat.lt_or_ge w.level 3 with hlt | hge
  · have hup : levelDown w.network (w.level + 1) = false := by
      refine List.all_eq_false.mpr ⟨i.val, List.mem_range.mpr i.isLt, ?_⟩
      have hat : (w.level + 1) * netNodes + i = nextLevel w.currentNode + i := by
        rw [nextLevel_eq]
        rfl
      rw [hat, hi.up]
      exact Bool.false_ne_true
    rw [downAfter_eq hlt, hup, Bool.toNat_false, Nat.zero_add]
  · rw [downAfter_last hge, downAfter_last (by omega)]

/-- After a wait the walk is on the same level, with the next one up if the batch was good. -/
theorem wait_levels {network : Network} (hlevel : w.level < 3)
    (hdown : ∀ i : Fin netNodes, i.val < neighborCount w.currentNode →
      w.network.up (nextLevel w.currentNode + i) = false)
    (href : Refreshed w.network w.state (nextLevel w.currentNode) netNodes network) :
    (w.wait network (rand^[20] w.state)).level = w.level ∧
      downAfter w.network w.level = 1 + downAfter w.network (w.level + 1) ∧
      downAfter network w.level =
        (!goodBatch w.state).toNat + downAfter w.network (w.level + 1) := by
  have hnext : nextLevel w.currentNode = (w.level + 1) * netNodes := by
    rw [nextLevel_eq]
    rfl
  have hfour : neighborCount w.currentNode = 4 := by rw [neighborCount_eq, if_pos hlevel]
  refine ⟨?_, ?_, ?_⟩
  · have hsame := getLevel_cyclicNext w.currentNode
    rw [getLevel_eq, getLevel_eq] at hsame
    exact hsame
  · have hall : levelDown w.network (w.level + 1) = true := by
      refine List.all_eq_true.mpr fun i hi => ?_
      have hlt : i < 4 := List.mem_range.mp hi
      have hi := hdown ⟨i, hlt⟩ (by rw [hfour]; exact hlt)
      rw [hnext] at hi
      rw [hi]
      rfl
    rw [downAfter_eq hlevel, hall]
    rfl
  · rw [hnext] at href
    rw [downAfter_eq hlevel, levelDown_refreshed href]
    congr 1
    refine downAfter_congr fun n hn => href.frame n (.inr ?_)
    change (w.level + 1) * 4 + 4 ≤ n
    omega

/--
From `w` to `w'` there are as many waits as batches needed: one entry of the path for
every level left, and one for every batch up to the last good one that is wanted.
-/
def Takes (w w' : Walk) : Prop :=
  ∃ waits, w'.path.length + w.level = w.path.length + 4 + waits ∧
    ∀ n, downAfter w.network w.level ≤ goodBatches n w.state ↔ waits ≤ n

theorem Takes.hop {i : Fin netNodes} {w' : Walk} (hcurrent : w.currentNode < recieverIndex)
    (hi : Cheapest w.network w.currentNode (nextLevel w.currentNode)
      (neighborCount w.currentNode) i) (h : Takes (w.hop i) w') : Takes w w' := by
  obtain ⟨waits, hlen, hneed⟩ := h
  obtain ⟨hlevel, hsame⟩ := hop_levels hcurrent hi
  have hpath : (w.hop i).path.length = w.path.length + 1 := List.length_append
  refine ⟨waits, by omega, fun n => ?_⟩
  have h := hneed n
  rw [hlevel] at h
  rw [hsame]
  exact h

theorem Takes.wait {network : Network} {w' : Walk} (hlevel : w.level < 3)
    (hdown : ∀ i : Fin netNodes, i.val < neighborCount w.currentNode →
      w.network.up (nextLevel w.currentNode + i) = false)
    (href : Refreshed w.network w.state (nextLevel w.currentNode) netNodes network)
    (h : Takes (w.wait network (rand^[20] w.state)) w') : Takes w w' := by
  obtain ⟨waits, hlen, hneed⟩ := h
  obtain ⟨hsame, hbefore, hafter⟩ := wait_levels hlevel hdown href
  have hpath : (w.wait network (rand^[20] w.state)).path.length = w.path.length + 1 :=
    List.length_append
  refine ⟨waits + 1, by omega, fun n => ?_⟩
  cases n with
  | zero => rw [hbefore]; exact iff_of_false (by rw [goodBatches]; omega) (by omega)
  | succ n =>
      have h := hneed n
      rw [hsame] at h
      change downAfter network w.level ≤ goodBatches n (rand^[20] w.state) ↔ _ at h
      rw [hafter] at h
      rw [hbefore, goodBatches, Nat.add_le_add_iff_right, ← h]
      cases goodBatch w.state <;> simp

/-- **The length of a path.** -/
theorem routing_takes (hw : OnWay w) {w' : Walk} {fuel : ℕ}
    (hrun : routeLoop fuel w = .done w') : Takes w w' := by
  have hr : recieverIndex = 16 := rfl
  refine whileLoop_relates (I := OnWay) ?_ ?_ fuel w hw hrun
  · intro w hw hc
    have hlevel : w.level = 4 := by rw [Walk.level, hw.arrived hc, hr]
    refine ⟨0, by omega, fun n => ?_⟩
    rw [hlevel, downAfter_last (by decide)]
    exact iff_of_true (Nat.zero_le _) (Nat.zero_le _)
  · intro w t hw hc hbody
    have hc := hw.unrouted_iff.mp hc
    rw [Outcome.ofOption_eq_done_iff] at hbody
    rcases hw.step hc with ⟨i, hi, hstep, hnext⟩ | ⟨hlevel, hdown, _, -, href, hstep, hnext⟩
    · obtain rfl := Option.some.inj (hstep.symm.trans hbody)
      exact ⟨hnext, fun u hu => hu.hop hc hi⟩
    · obtain rfl := Option.some.inj (hstep.symm.trans hbody)
      exact ⟨hnext, fun u hu => hu.wait hlevel hdown href⟩

/-- **Termination.** Enough good batches end the loop. -/
theorem routing_ends (rounds : ℕ) : ∀ (n : ℕ) (w : Walk), OnWay w → n + 4 ≤ rounds + w.level →
    downAfter w.network w.level ≤ goodBatches n w.state →
      ∃ w', routeLoop rounds w = .done w' := by
  have hr : recieverIndex = 16 := rfl
  induction rounds with
  | zero =>
      intro n w hw hrounds hneed
      have hexit : w.unrouted = false := Bool.eq_false_iff.mpr fun h => by
        have hlt := hw.unrouted_iff.mp h
        have hlevel : w.level = w.currentNode / 4 := rfl
        omega
      exact ⟨w, whileLoop_exit hexit 0⟩
  | succ rounds ih =>
      intro n w hw hrounds hneed
      cases hguard : w.unrouted with
      | false => exact ⟨w, whileLoop_exit hguard _⟩
      | true =>
          have hcurrent := hw.unrouted_iff.mp hguard
          rcases hw.step hcurrent with
            ⟨i, hi, hstep, hnext⟩ | ⟨hlevel, hdown, network, -, href, hstep, hnext⟩
          · obtain ⟨hlevel, hsame⟩ := hop_levels hcurrent hi
            rw [routeLoop, whileLoop_round hguard (by rw [hstep]; rfl)]
            refine ih n _ hnext (by omega) ?_
            rw [hlevel]
            exact hsame ▸ hneed
          · obtain ⟨hsame, hbefore, hafter⟩ := wait_levels hlevel hdown href
            rw [routeLoop, whileLoop_round hguard (by rw [hstep]; rfl)]
            -- the next level is down, so a batch is left
            obtain ⟨m, rfl⟩ : ∃ m, n = m + 1 := by
              cases n with
              | zero =>
                  rw [hbefore, goodBatches] at hneed
                  omega
              | succ m => exact ⟨m, rfl⟩
            refine ih m _ hnext (by omega) ?_
            rw [hsame]
            change downAfter network w.level ≤ goodBatches m (rand^[20] w.state)
            rw [hbefore, goodBatches] at hneed
            rw [hafter]
            cases hgood : goodBatch w.state <;> rw [hgood] at hneed <;> simp at hneed ⊢ <;> omega

/-! ## The buffer -/

/-- The batches there is room for in the caller's array. -/
def roomForWaits : ℕ := pathMaxSize - 5

/-- When `greedy_path` returns, and how much of the array it has then used. -/
theorem greedyPath_takes (hnet : Ready network) (state : BitVec 64) :
    (∀ fuel w, greedyPath fuel network state = .done w →
      ∃ waits, w.path.length = 5 + waits ∧
        ∀ n, downAfter network 0 ≤ goodBatches n state ↔ waits ≤ n) ∧
      ∀ n, downAfter network 0 ≤ goodBatches n state →
        ∃ fuel w, greedyPath fuel network state = .done w := by
  obtain ⟨i, -, hway, hstart⟩ := hnet.start state
  have hlevel : (Walk.start network state i).level = 0 := Nat.div_eq_of_lt i.isLt
  constructor
  · intro fuel w hrun
    rw [hstart] at hrun
    obtain ⟨waits, hlen, hneed⟩ := routing_takes hway hrun
    rw [hlevel] at hlen hneed
    refine ⟨waits, ?_, hneed⟩
    have hone : (Walk.start network state i).path.length = 1 := rfl
    omega
  · intro n hneed
    obtain ⟨w, hrun⟩ := routing_ends (n + 4) n _ hway (by omega) (by rw [hlevel]; exact hneed)
    exact ⟨n + 4, w, by rw [hstart]; exact hrun⟩

/--
**Path buffer.** `greedy_path` returns within the caller's array exactly when, of the
batches the array has room for, at least as many are good as there are levels down after
the first.
-/
theorem path_fits_iff (hnet : Ready network) (state : BitVec 64) :
    (∃ fuel w, greedyPath fuel network state = .done w ∧ w.path.length ≤ pathMaxSize) ↔
      downAfter network 0 ≤ goodBatches roomForWaits state := by
  obtain ⟨hlength, hreturns⟩ := greedyPath_takes hnet state
  have hmax : pathMaxSize = 5 + roomForWaits := rfl
  constructor
  · intro hfit
    obtain ⟨fuel, w, hrun, hfits⟩ := hfit
    obtain ⟨waits, hlen, hneed⟩ := hlength fuel w hrun
    exact (hneed _).mpr (by omega)
  · intro hneed
    obtain ⟨fuel, w, hrun⟩ := hreturns _ hneed
    obtain ⟨waits, hlen, hwaits⟩ := hlength fuel w hrun
    have hle := (hwaits _).mp hneed
    exact ⟨fuel, w, hrun, by omega⟩

/-- All levels after the first are down, and the seed is that of `dtn.c`. -/
theorem path_fits_seeded : ∃ fuel w, greedyPath fuel (upBelow 4) 0xaddc0defe3d5ee3d = .done w ∧
    w.path.length ≤ pathMaxSize :=
  (path_fits_iff (upBelow_ready (by decide)) 0xaddc0defe3d5ee3d).mpr (by decide +kernel)

/-- From the state 761 only one of the first 49 batches is good. -/
theorem path_overruns :
    ¬ ∀ (network : Network) (state : BitVec 64), Ready network → state ≠ 0 →
      ∃ fuel w, greedyPath fuel network state = .done w ∧ w.path.length ≤ pathMaxSize := by
  intro h
  have hnet : Ready (upBelow 4) := upBelow_ready (by decide)
  obtain ⟨fuel, w, hrun, hfits⟩ := h (upBelow 4) 761 hnet (by decide)
  obtain ⟨waits, hlen, hneed⟩ := (greedyPath_takes hnet 761).1 fuel w hrun
  have hmax : pathMaxSize = 5 + 49 := rfl
  have hgood := (hneed 49).mpr (by omega)
  revert hgood
  decide +kernel

/-! ## Whether it returns -/

/-- Every fifth number is drawn as a status, and one of these puts a node up. -/
theorem exists_drawsUp {state : BitVec 64} (h : state ≠ 0) :
    ∃ m, drawsUp (rand^[5 * m + 1] state) = true := by
  have hone : (1 : BitVec 64) ≠ 0 := by decide
  obtain ⟨t, rfl⟩ := exists_iterate_rand hone h
  -- in each class modulo 5 there is a number that puts a node up
  have hclass : ∀ r < 5, ∃ j < 143, j % 5 = r ∧ drawsUp (rand^[j] 1) = true := by decide +kernel
  obtain ⟨j, -, hj, hup⟩ := hclass ((t + 1) % 5) (Nat.mod_lt _ (by decide))
  have hperiod : Function.IsPeriodicPt rand (2 ^ 64 - 1) 1 := by
    rw [← minimalPeriod_rand_one]
    exact Function.isPeriodicPt_minimalPeriod rand 1
  obtain ⟨m, hm⟩ : ∃ m, 5 * m + 1 + t = j + (2 ^ 64 - 1) * (t + 1) :=
    ⟨(j + (2 ^ 64 - 1) * (t + 1) - 1 - t) / 5, by omega⟩
  refine ⟨m, ?_⟩
  rw [← Function.iterate_add_apply, hm, Function.iterate_add_apply, (hperiod.mul_const _).eq]
  exact hup

/-- There is always another good batch. -/
theorem exists_goodBatch {state : BitVec 64} (h : state ≠ 0) :
    ∃ b, goodBatch (rand^[20 * b] state) = true := by
  obtain ⟨m, hm⟩ := exists_drawsUp h
  refine ⟨m / 4, List.any_eq_true.mpr ⟨m % 4, ?_, ?_⟩⟩
  · exact List.mem_range.mpr (Nat.mod_lt _ (by decide))
  · rw [← Function.iterate_add_apply, show 5 * (m % 4) + 1 + 20 * (m / 4) = 5 * m + 1 by omega]
    exact hm

theorem goodBatches_add (a b : ℕ) (state : BitVec 64) :
    goodBatches (a + b) state = goodBatches a state + goodBatches b (rand^[20 * a] state) := by
  induction a generalizing state with
  | zero => rw [Nat.zero_add, goodBatches, Nat.zero_add, Nat.mul_zero, Function.iterate_zero_apply]
  | succ a ih =>
      rw [Nat.succ_add, goodBatches, goodBatches, ih, ← Function.iterate_add_apply,
        Nat.mul_succ, Nat.add_assoc]

/-- There are as many as anyone wants. -/
theorem exists_goodBatches {state : BitVec 64} (h : state ≠ 0) (wanted : ℕ) :
    ∃ n, wanted ≤ goodBatches n state := by
  induction wanted with
  | zero => exact ⟨0, Nat.zero_le _⟩
  | succ wanted ih =>
      obtain ⟨n, hn⟩ := ih
      obtain ⟨b, hb⟩ := exists_goodBatch (iterate_rand_ne_zero h (20 * n))
      refine ⟨n + (b + 1), ?_⟩
      rw [goodBatches_add, goodBatches_add b 1, goodBatches, hb, Bool.toNat_true]
      omega

/-- The state 0 puts nothing up. -/
theorem goodBatches_zero (n : ℕ) : goodBatches n 0 = 0 := by
  induction n with
  | zero => rfl
  | succ n ih =>
      rw [goodBatches, Function.iterate_fixed rand_zero, ih]
      decide

/--
**Termination of `greedy_path`.** It returns from every network that is ready, unless the
state of the generator is 0 and a level after the first is down: then it never does.
-/
theorem greedy_path_returns (hnet : Ready network) (state : BitVec 64) :
    (∃ fuel w, greedyPath fuel network state = .done w) ↔
      state ≠ 0 ∨ downAfter network 0 = 0 := by
  obtain ⟨hlength, hreturns⟩ := greedyPath_takes hnet state
  constructor
  · intro hrun
    obtain ⟨fuel, w, hrun⟩ := hrun
    obtain ⟨waits, -, hneed⟩ := hlength fuel w hrun
    by_cases h : state = 0
    · have hgood := (hneed waits).mpr le_rfl
      rw [h, goodBatches_zero] at hgood
      exact .inr (Nat.le_zero.mp hgood)
    · exact .inl h
  · intro h
    rcases h with h | h
    · obtain ⟨n, hn⟩ := exists_goodBatches h (downAfter network 0)
      exact hreturns n hn
    · exact hreturns 0 (by rw [h]; exact Nat.zero_le _)

/-- All levels after the first are down; the seed is that of `dtn.c`. -/
theorem greedy_path_returns_seeded :
    ∃ fuel w, greedyPath fuel (upBelow 4) 0xaddc0defe3d5ee3d = .done w :=
  (greedy_path_returns (upBelow_ready (by decide)) _).mpr (.inl (by decide))

end Dtn

end Soft

end PassiFlo
