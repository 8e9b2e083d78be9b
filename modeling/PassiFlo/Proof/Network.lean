import PassiFlo.Soft.Dtn
import PassiFlo.Lib.FirstMin

/-!
# What the functions on the network do

One statement for each function of `dtn.c`: what a new random status is and what it
leaves alone, which node a selection loop picks, and the two things one round of the
routing loop can do.
-/

namespace PassiFlo

namespace Soft

namespace Dtn

open Loop FirstMin

variable {network : Network} {state : BitVec 64}

/-! ## Reading and writing the network -/

/-- `network[n].up`. -/
def Network.up (network : Network) (n : ℕ) : Bool := (network.get n).elim false Node.up

/-- `network[n].neighbor_cost[i]`. -/
def Network.cost (network : Network) (n : ℕ) (i : Fin netNodes) : BitVec 64 :=
  (network.get n).elim infinity fun node => node.neighborCost i

theorem get_eq {n : ℕ} (h : n < netSize) :
    network.get n = some { up := network.up n, neighborCost := network.cost n } := by
  unfold Network.up Network.cost
  rw [Network.get, dif_pos h]
  rfl

/-- A write is seen at its index, and nowhere else. -/
theorem set_spec (network : Network) {index : ℕ} (h : index < netSize) (node : Node) :
    ∃ network', network.set index node = some network' ∧
      ∀ n, network'.get n = if n = index then some node else network.get n := by
  refine ⟨Function.update network ⟨index, h⟩ node, dif_pos h, fun n => ?_⟩
  unfold Network.get
  by_cases hn : n = index
  · subst hn
    rw [dif_pos h, if_pos rfl, Function.update_self]
  · rw [if_neg hn]
    split_ifs with hlt
    · rw [Function.update_of_ne fun he => hn (Fin.mk.inj_iff.mp he)]
    · rfl

theorem up_of_get {network' : Network} {n m : ℕ} (h : network'.get n = network.get m) :
    network'.up n = network.up m := by
  rw [Network.up, h]
  rfl

theorem cost_of_get {network' : Network} {n m : ℕ} (h : network'.get n = network.get m) :
    network'.cost n = network.cost m := by
  funext i
  rw [Network.cost, h]
  rfl

/-! ## Random status -/

theorem umod2_eq (n bits : ℕ) : umod2 n bits = n % 2 ^ bits := by
  rw [umod2, Nat.one_shiftLeft, Nat.and_two_pow_sub_one_eq_mod]

/-- Ten bits are far below `INFINITY`. -/
theorem tenBits_lt (r : BitVec 64) : tenBits r < infinity := by
  have hinf : infinity.toNat = 2 ^ 64 - 1 := by decide
  rw [BitVec.lt_def, tenBits, umod2_eq, BitVec.toNat_ofNat, hinf]
  omega

/-- **A stretch of nodes set one by one**, each from as many numbers as the one before. -/
theorem setNodes_spec (node : BitVec 64 → Node)
    {f : Network × BitVec 64 → ℕ → Option (Network × BitVec 64)} {draws : ℕ}
    (hf : ∀ v index, f v index =
      (v.1.set index (node v.2)).map fun network => (network, rand^[draws] v.2))
    (network : Network) (state : BitVec 64) {base count : ℕ} (h : base + count ≤ netSize) :
    ∃ network', (List.range count).foldlM (fun v i => f v (base + i)) (network, state) =
        some (network', rand^[draws * count] state) ∧
      (∀ i < count, network'.get (base + i) = some (node (rand^[draws * i] state))) ∧
      ∀ n, n < base ∨ base + count ≤ n → network'.get n = network.get n := by
  induction count with
  | zero => exact ⟨network, rfl, fun i hi => absurd hi (Nat.not_lt_zero i), fun n _ => rfl⟩
  | succ count ih =>
      obtain ⟨net₁, hrun₁, hget₁, hframe₁⟩ := ih (by omega)
      obtain ⟨net₂, hset₂, hget₂⟩ := set_spec net₁ (show base + count < netSize by omega)
        (node (rand^[draws * count] state))
      refine ⟨net₂, ?_, fun i hi => ?_, fun n hn => ?_⟩
      · rw [List.range_succ, List.foldlM_append, hrun₁, Option.bind_eq_bind, Option.bind_some,
          List.foldlM_cons, hf, hset₂, Option.map_some, ← Function.iterate_add_apply,
          Nat.mul_succ, Nat.add_comm draws]
        rfl
      · rw [hget₂]
        by_cases hlast : i = count
        · rw [hlast, if_pos rfl]
        · rw [if_neg (by omega)]
          exact hget₁ i (by omega)
      · rw [hget₂, if_neg (by omega)]
        exact hframe₁ n (by omega)

/-- What a stretch of nodes looks like after a new status for each. -/
structure Refreshed (network : Network) (state : BitVec 64) (base count : ℕ) (network' : Network) :
    Prop where
  /-- Every node takes five numbers, and the first decides whether it is up. -/
  up : ∀ i < count, network'.up (base + i) = drawsUp (rand^[5 * i + 1] state)
  cost : ∀ i < count, ∀ j, network'.cost (base + i) j < infinity
  frame : ∀ n, n < base ∨ base + count ≤ n → network'.get n = network.get n

theorem randomNode_eq (v : Network × BitVec 64) (index : ℕ) :
    randomNode v index =
      (v.1.set index { up := drawsUp (rand v.2), neighborCost := (randomCosts (rand v.2)).1 }).map
        fun network => (network, rand^[5] v.2) := by
  rw [randomNode]
  cases Network.set v.1 index _ <;> rfl

/-- **A new status for a stretch of nodes.** -/
theorem randomNodes_spec (network : Network) (state : BitVec 64) {base count : ℕ}
    (h : base + count ≤ netSize) :
    ∃ network', (List.range count).foldlM (fun v i => randomNode v (base + i)) (network, state) =
        some (network', rand^[5 * count] state) ∧
      Refreshed network state base count network' := by
  obtain ⟨network', hrun, hget, hframe⟩ := setNodes_spec
    (fun s => { up := drawsUp (rand s), neighborCost := (randomCosts (rand s)).1 })
    randomNode_eq network state h
  refine ⟨network', hrun, fun i hi => ?_, fun i hi j => ?_, hframe⟩
  · rw [Network.up, hget i hi, Function.iterate_succ_apply']
    rfl
  · rw [Network.cost, hget i hi]
    exact tenBits_lt _

theorem randomStatusLevel_spec (network : Network) (state : BitVec 64) {level : ℕ}
    (h : level < netLevels) :
    ∃ network', randomStatusLevel network level state = some (network', rand^[20] state) ∧
      Refreshed network state (level * netNodes) netNodes network' :=
  randomNodes_spec network state (by change _ * 4 + 4 ≤ 18; change level < 4 at h; omega)

/-! ## Selection -/

/-- The candidate is the cheapest that is up, and of these the lowest. -/
structure Cheapest (network : Network) (current base count : ℕ) (i : Fin netNodes) : Prop where
  lt : i.val < count
  up : network.up (base + i) = true
  least : ∀ j : Fin netNodes, j.val < count → network.up (base + j) = true →
    network.cost current i ≤ network.cost current j
  first : ∀ j < i, network.up (base + j) = true →
    network.cost current i < network.cost current j

/-- The candidates of a selection loop, in ascending order. -/
theorem candidates_sorted (count : ℕ) :
    ((List.finRange netNodes).take count).Pairwise (· < ·) :=
  (List.pairwise_lt_finRange netNodes).sublist (List.take_sublist _ _)

theorem mem_candidates {count : ℕ} {i : Fin netNodes} :
    i ∈ (List.finRange netNodes).take count ↔ i.val < count := by
  rw [List.mem_take_iff_getElem]
  constructor
  · intro hin
    obtain ⟨k, hk, rfl⟩ := hin
    rw [List.getElem_finRange]
    exact lt_of_lt_of_le hk (min_le_left _ _)
  · intro hi
    exact ⟨i.val, lt_min hi (by rw [List.length_finRange]; exact i.isLt), by
      rw [List.getElem_finRange]; rfl⟩

/-- The scan of the selection loops. -/
def cheapestOf (network : Network) (current base count : ℕ) : Option (Fin netNodes) :=
  search (fun i : Fin netNodes => network.up (base + i))
    (fun i => (network.cost current i).toNat) ((List.finRange netNodes).take count)

theorem cheapestOf_spec (network : Network) (current base count : ℕ) :
    (cheapestOf network current base count = none ∧
        ∀ i : Fin netNodes, i.val < count → network.up (base + i) = false) ∨
      ∃ i, cheapestOf network current base count = some i ∧
        Cheapest network current base count i := by
  rcases search_spec (fun i : Fin netNodes => network.up (base + i))
      (fun i => (network.cost current i).toNat) _ (candidates_sorted count) with
    ⟨hnone, hall⟩ | ⟨i, hi, hmin⟩
  · exact .inl ⟨hnone, fun i hi => hall i (mem_candidates.mpr hi)⟩
  · refine .inr ⟨i, hi, mem_candidates.mp hmin.mem, hmin.up, fun j hj hju => ?_,
      fun j hji hju => ?_⟩
    · exact hmin.least j (mem_candidates.mpr hj) hju
    · have hj : j.val < count := lt_trans hji (mem_candidates.mp hmin.mem)
      exact hmin.first j (mem_candidates.mpr hj) hju hji

/-- `current_node`, `min_cost` and `current_cost` for the best candidate so far. -/
def firstVars (network : Network) : Option (Fin netNodes) → ℕ × BitVec 64 × BitVec 64
  | none => (senderIndex, infinity, 0)
  | some i => (i.val, network.cost senderIndex i, network.cost senderIndex i)

theorem firstNode_eq (hcost : ∀ i, network.cost senderIndex i < infinity) :
    firstNode network = some (firstVars network (cheapestOf network senderIndex 0 netNodes)) := by
  have hall : (List.finRange netNodes).take netNodes = List.finRange netNodes :=
    List.take_of_length_le (by rw [List.length_finRange])
  rw [firstNode, cheapestOf, hall]
  refine foldlM_search _ _ (firstVars network) fun best i _ => ?_
  have hi : i.val < netSize := lt_trans i.isLt (by decide)
  rw [firstStep, get_eq hi, get_eq (show senderIndex < netSize by decide)]
  simp only [Option.bind_eq_bind, Option.bind_some, Nat.zero_add]
  cases best with
  | none => cases hup : network.up i.val <;> simp [firstVars, better, hup, hcost i]
  | some b =>
      simp only [firstVars, better, Bool.and_eq_true, decide_eq_true_eq, ← BitVec.lt_def]
      by_cases hup : network.up i.val = true <;>
        by_cases hlt : network.cost senderIndex i < network.cost senderIndex b <;>
        simp [hup, hlt]

/-- The first index of the next level. -/
def nextLevel (current : ℕ) : ℕ := (getLevel current + 1) * netNodes

theorem getLevel_eq (n : ℕ) : getLevel n = n / 4 := Nat.shiftRight_eq_div_pow n 2

theorem nextLevel_eq (n : ℕ) : nextLevel n = (n / 4 + 1) * 4 := by rw [nextLevel, getLevel_eq]; rfl

theorem neighborCount_eq (n : ℕ) : neighborCount n = if n / 4 < 3 then 4 else 1 := by
  rw [neighborCount, getLevel_eq]; rfl

/-- A candidate for the next node is an inner node of the next level, or the receiver. -/
theorem nextLevel_add {current i : ℕ} (hcurrent : current < recieverIndex)
    (hi : i < neighborCount current) :
    current / 4 < 3 ∧ i < 4 ∧ nextLevel current + i < recieverIndex ∨
      current / 4 = 3 ∧ i = 0 ∧ nextLevel current + i = recieverIndex := by
  have hr : recieverIndex = 16 := rfl
  rw [neighborCount_eq] at hi
  rw [nextLevel_eq]
  split_ifs at hi <;> omega

/-- `next_node` and `min_cost` for the best candidate so far. -/
def nextVars (network : Network) (current : ℕ) : Option (Fin netNodes) → ℕ × BitVec 64
  | none => (current, infinity)
  | some i => (nextLevel current + i, network.cost current i)

theorem nextNode_eq {current : ℕ} (hcurrent : current < recieverIndex)
    (hcost : ∀ i : Fin netNodes, i.val < neighborCount current →
      network.cost current i < infinity) :
    nextNode network current = some (nextVars network current
      (cheapestOf network current (nextLevel current) (neighborCount current))) := by
  rw [nextNode, cheapestOf]
  refine foldlM_search _ _ (nextVars network current) fun best i hi => ?_
  have hi := mem_candidates.mp hi
  have hnext : nextLevel current + i < netSize := by
    have hr : recieverIndex + 2 = netSize := rfl
    rcases nextLevel_add hcurrent hi with h | h <;> omega
  have hcur : current < netSize := lt_trans hcurrent (by decide)
  have hstep : ∀ v, nextStep network current v i = (network.get (nextLevel current + i)).bind
      fun neighbor => if neighbor.up then (network.get current).bind fun node =>
        if node.neighborCost i < v.2 then some (nextLevel current + i, node.neighborCost i)
        else some v
      else some v := fun v => rfl
  rw [hstep, get_eq hnext, get_eq hcur]
  simp only [Option.bind_some]
  cases best with
  | none =>
      cases hup : network.up (nextLevel current + i) <;> simp [nextVars, better, hup, hcost i hi]
  | some b =>
      simp only [nextVars, better, Bool.and_eq_true, decide_eq_true_eq, ← BitVec.lt_def]
      by_cases hup : network.up (nextLevel current + i) = true <;>
        by_cases hlt : network.cost current i < network.cost current b <;>
        simp [hup, hlt]

/-! ## One round of routing -/

/-- The cyclic successor within a level. -/
def cyclicNext (current : ℕ) : ℕ := getLevel current * netNodes + (current + 1) % netNodes

theorem getLevel_cyclicNext (current : ℕ) : getLevel (cyclicNext current) = getLevel current := by
  have hnext : cyclicNext current = current / 4 * 4 + (current + 1) % 4 := by
    rw [cyclicNext, getLevel_eq]; rfl
  rw [getLevel_eq, getLevel_eq, hnext]
  omega

/-- The walk after a hop to the next level. -/
def Walk.hop (w : Walk) (i : Fin netNodes) : Walk :=
  { w with currentNode := nextLevel w.currentNode + i
           currentCost := w.currentCost + w.network.cost w.currentNode i
           path := w.path ++ [nextLevel w.currentNode + i] }

/-- The walk after a wait, with the new status of the next level. -/
def Walk.wait (w : Walk) (network : Network) (state : BitVec 64) : Walk :=
  { network, state, currentNode := cyclicNext w.currentNode
    currentCost := w.currentCost + sameLevelCost
    path := w.path ++ [cyclicNext w.currentNode] }

/-- **What one round does.** -/
theorem routeStep_cases {w : Walk} (hcurrent : w.currentNode < recieverIndex)
    (hcost : ∀ i : Fin netNodes, i.val < neighborCount w.currentNode →
      w.network.cost w.currentNode i < infinity) :
    (∃ i, Cheapest w.network w.currentNode (nextLevel w.currentNode)
        (neighborCount w.currentNode) i ∧ routeStep w = some (w.hop i)) ∨
      (∀ i : Fin netNodes, i.val < neighborCount w.currentNode →
        w.network.up (nextLevel w.currentNode + i) = false) ∧
      ∀ network state, randomStatusLevel w.network (getLevel w.currentNode + 1) w.state =
        some (network, state) → routeStep w = some (w.wait network state) := by
  have hnext := nextNode_eq hcurrent hcost
  have hr : recieverIndex = 16 := rfl
  rcases cheapestOf_spec w.network w.currentNode (nextLevel w.currentNode)
      (neighborCount w.currentNode) with ⟨hnone, hall⟩ | ⟨i, hi, hcheap⟩
  · refine .inr ⟨hall, fun network state hstatus => ?_⟩
    have hsucc : getLevel w.currentNode * netNodes + umod2 (w.currentNode + 1) 2 =
        cyclicNext w.currentNode := by rw [umod2_eq]; rfl
    rw [hnone] at hnext
    rw [routeStep, hnext]
    simp only [Option.bind_eq_bind, Option.bind_some, nextVars, if_true, hsucc,
      getLevel_cyclicNext, hstatus]
    rfl
  · refine .inl ⟨i, hcheap, ?_⟩
    have hne : nextLevel w.currentNode + i ≠ w.currentNode := by
      have h := nextLevel_add hcurrent hcheap.lt
      rw [nextLevel_eq] at h ⊢
      omega
    rw [hi] at hnext
    rw [routeStep, hnext]
    simp only [Option.bind_eq_bind, Option.bind_some, nextVars, if_neg hne]
    rfl

end Dtn

end Soft

end PassiFlo
