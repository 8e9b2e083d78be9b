import PassiFlo.Proof.Network

/-!
# Greedy routing takes the routes it should

The network changes under the walk: a wait draws a new status for the next level. Only
levels 1 to 3 are ever drawn, so the receiver stays up, the last level never has to
wait, and no level beyond it is asked for.
-/

namespace PassiFlo

namespace Soft

namespace Dtn

open Loop

variable {network : Network} {state : BitVec 64} {w : Walk}

/-! ## What a route is -/

/-- All links of the inner nodes have a cost. -/
def LinksHaveCosts (network : Network) : Prop :=
  ∀ n < recieverIndex, ∀ i : Fin netNodes, i.val < neighborCount n → network.cost n i < infinity

/-- What `greedy_path` needs of the network. -/
structure Ready (network : Network) : Prop where
  reciever : network.up recieverIndex = true
  firstLevel : ∃ i : Fin netNodes, network.up i = true
  senderCost : ∀ i, network.cost senderIndex i < infinity
  hopCost : LinksHaveCosts network

/--
`Route network state current rest cost network' state'`: from node `current` the nodes
`rest` lead to the receiver at the given cost, while the network and the generator go from
their first to their second values.
-/
inductive Route : Network → BitVec 64 → ℕ → List ℕ → BitVec 64 → Network → BitVec 64 → Prop
  | arrived {network : Network} {state : BitVec 64} :
      Route network state recieverIndex [] 0 network state
  /-- To the cheapest node of the next level that is up now. -/
  | hop {network network' : Network} {state state' cost : BitVec 64} {current : ℕ}
      {i : Fin netNodes} {rest : List ℕ} (inner : current < recieverIndex)
      (cheapest : Cheapest network current (nextLevel current) (neighborCount current) i)
      (onward : Route network state (nextLevel current + i) rest cost network' state') :
      Route network state current ((nextLevel current + i) :: rest)
        (network.cost current i + cost) network' state'
  /-- Around within the level, while all of the next level is down. -/
  | wait {network network₁ network' : Network} {state state₁ state' cost : BitVec 64}
      {current : ℕ} {rest : List ℕ} (inner : current < recieverIndex)
      (down : ∀ i : Fin netNodes, i.val < neighborCount current →
        network.up (nextLevel current + i) = false)
      (status : randomStatusLevel network (getLevel current + 1) state = some (network₁, state₁))
      (onward : Route network₁ state₁ (cyclicNext current) rest cost network' state') :
      Route network state current (cyclicNext current :: rest) (sameLevelCost + cost) network'
        state'

/-- A route ends at the receiver and comes there once. -/
theorem Route.path {network network' : Network} {state state' cost : BitVec 64} {current : ℕ}
    {rest : List ℕ} (h : Route network state current rest cost network' state') :
    ∃ front, current :: rest = front ++ [recieverIndex] ∧ ∀ n ∈ front, n < recieverIndex := by
  induction h with
  | arrived => exact ⟨[], rfl, fun n hn => absurd hn List.not_mem_nil⟩
  | hop inner _ _ ih | wait inner _ _ _ ih =>
      obtain ⟨front, hfront, hlt⟩ := ih
      refine ⟨_ :: front, by rw [hfront]; rfl, fun n hn => ?_⟩
      rcases List.mem_cons.mp hn with rfl | hn
      · exact inner
      · exact hlt n hn

/-! ## The walk -/

/-- What every round of the routing loop finds. -/
structure OnWay (w : Walk) : Prop where
  reciever : w.network.up recieverIndex = true
  hopCost : LinksHaveCosts w.network
  current : w.currentNode ≤ recieverIndex

/-- The routing loop goes on until the receiver is reached. -/
theorem OnWay.unrouted_iff (hw : OnWay w) : w.unrouted = true ↔ w.currentNode < recieverIndex := by
  have hr : recieverIndex = 16 := rfl
  have hl : netLevels = 4 := rfl
  have hcurrent := hw.current
  rw [Walk.unrouted, getLevel_eq, hl, bne_iff_ne]
  omega

theorem OnWay.arrived (hw : OnWay w) (h : w.unrouted = false) : w.currentNode = recieverIndex :=
  Nat.le_antisymm hw.current (Nat.le_of_not_lt fun hlt =>
    Bool.false_ne_true (h.symm.trans (hw.unrouted_iff.mpr hlt)))

/-- A new status keeps costs below `INFINITY`. -/
theorem LinksHaveCosts.refreshed {network' : Network} {base count : ℕ}
    (h : LinksHaveCosts network) (href : Refreshed network state base count network') :
    LinksHaveCosts network' := by
  intro n hn i hi
  by_cases hin : base ≤ n ∧ n < base + count
  · obtain ⟨k, rfl⟩ : ∃ k, n = base + k := ⟨n - base, by omega⟩
    exact href.cost k (by omega) i
  · rw [cost_of_get (href.frame n (by omega))]
    exact h n hn i hi

/-- **One round on the way**: a hop, or a wait below the last level. -/
theorem OnWay.step (hw : OnWay w) (hcurrent : w.currentNode < recieverIndex) :
    (∃ i, Cheapest w.network w.currentNode (nextLevel w.currentNode)
        (neighborCount w.currentNode) i ∧ routeStep w = some (w.hop i) ∧ OnWay (w.hop i)) ∨
      w.currentNode / 4 < 3 ∧
        (∀ i : Fin netNodes, i.val < neighborCount w.currentNode →
          w.network.up (nextLevel w.currentNode + i) = false) ∧
        ∃ network, randomStatusLevel w.network (getLevel w.currentNode + 1) w.state =
            some (network, rand^[20] w.state) ∧
          Refreshed w.network w.state (nextLevel w.currentNode) netNodes network ∧
          routeStep w = some (w.wait network (rand^[20] w.state)) ∧
          OnWay (w.wait network (rand^[20] w.state)) := by
  have hr : recieverIndex = 16 := rfl
  rcases routeStep_cases hcurrent (hw.hopCost _ hcurrent) with ⟨i, hi, hstep⟩ | ⟨hall, hstep⟩
  · refine .inl ⟨i, hi, hstep, hw.reciever, hw.hopCost, ?_⟩
    rcases nextLevel_add hcurrent hi.lt with h | h
    · exact h.2.2.le
    · exact h.2.2.le
  · -- the receiver is up, so the last level does not wait
    have hlevel : w.currentNode / 4 < 3 := by
      by_contra hlast
      have hone : neighborCount w.currentNode = 1 := by rw [neighborCount_eq, if_neg hlast]
      have hnext : nextLevel w.currentNode + 0 = recieverIndex := by
        rw [nextLevel_eq, hr]
        omega
      have hdown := hall ⟨0, by decide⟩ (by rw [hone]; exact Nat.zero_lt_one)
      rw [hnext, hw.reciever] at hdown
      exact Bool.false_ne_true hdown.symm
    have hlt : getLevel w.currentNode + 1 < netLevels := by
      rw [getLevel_eq]
      exact Nat.succ_lt_succ hlevel
    obtain ⟨network, hstatus, href⟩ := randomStatusLevel_spec w.network w.state hlt
    refine .inr ⟨hlevel, hall, network, hstatus, href, hstep _ _ hstatus, ?_, ?_, ?_⟩
    · have hframe := href.frame recieverIndex (.inr (by
        change nextLevel w.currentNode + 4 ≤ recieverIndex
        rw [nextLevel_eq]
        omega))
      exact (up_of_get hframe).trans hw.reciever
    · exact hw.hopCost.refreshed href
    · have hsame := getLevel_cyclicNext w.currentNode
      rw [getLevel_eq, getLevel_eq] at hsame
      change cyclicNext w.currentNode ≤ recieverIndex
      omega

/-- What the loop does from a walk on the way to where it ends. -/
def Routes (w w' : Walk) : Prop :=
  ∃ rest cost, Route w.network w.state w.currentNode rest cost w'.network w'.state ∧
    w'.path = w.path ++ rest ∧ w'.currentCost = w.currentCost + cost

theorem Routes.hop {i : Fin netNodes} {w' : Walk} (hcurrent : w.currentNode < recieverIndex)
    (hi : Cheapest w.network w.currentNode (nextLevel w.currentNode)
      (neighborCount w.currentNode) i) (h : Routes (w.hop i) w') : Routes w w' := by
  obtain ⟨rest, cost, hroute, hpath, hcost⟩ := h
  refine ⟨_, _, Route.hop hcurrent hi hroute, ?_, ?_⟩
  · rw [hpath, Walk.hop, List.append_assoc]
    rfl
  · rw [hcost, Walk.hop, BitVec.add_assoc]

theorem Routes.wait {network : Network} {w' : Walk} (hcurrent : w.currentNode < recieverIndex)
    (hdown : ∀ i : Fin netNodes, i.val < neighborCount w.currentNode →
      w.network.up (nextLevel w.currentNode + i) = false)
    (hstatus : randomStatusLevel w.network (getLevel w.currentNode + 1) w.state =
      some (network, state))
    (h : Routes (w.wait network state) w') : Routes w w' := by
  obtain ⟨rest, cost, hroute, hpath, hcost⟩ := h
  refine ⟨_, _, Route.wait hcurrent hdown hstatus hroute, ?_, ?_⟩
  · rw [hpath, Walk.wait, List.append_assoc]
    rfl
  · rw [hcost, Walk.wait, BitVec.add_assoc]

/-- **The loop.** It does not fault, and where it ends it has taken a route. -/
theorem routing_loop (hw : OnWay w) (fuel : ℕ) :
    routeLoop fuel w ≠ .fault ∧ ∀ w', routeLoop fuel w = .done w' → Routes w w' ∧ OnWay w' := by
  have hsafe : ∀ w, OnWay w → w.unrouted = true →
      ∃ w', Outcome.ofOption (routeStep w) = .done w' ∧ OnWay w' := by
    intro w hw hc
    rcases hw.step (hw.unrouted_iff.mp hc) with ⟨i, -, hstep, hnext⟩ | ⟨-, -, _, -, -, hstep, hnext⟩
    all_goals exact ⟨_, by rw [hstep]; rfl, hnext⟩
  constructor
  · intro hfault
    rcases whileLoop_safe hsafe fuel w hw with h | ⟨t, h, -⟩
    all_goals rw [routeLoop, h] at hfault; exact absurd hfault (by simp)
  · intro w' hrun
    refine ⟨whileLoop_relates (R := Routes) ?_ ?_ fuel w hw hrun, ?_⟩
    · intro w hw hc
      exact ⟨[], 0, hw.arrived hc ▸ Route.arrived, (List.append_nil _).symm,
        (BitVec.add_zero _).symm⟩
    · intro w t hw hc hbody
      have hcurrent := hw.unrouted_iff.mp hc
      rw [Outcome.ofOption_eq_done_iff] at hbody
      rcases hw.step hcurrent with
        ⟨i, hi, hstep, hnext⟩ | ⟨-, hdown, _, hstatus, -, hstep, hnext⟩
      · obtain rfl := Option.some.inj (hstep.symm.trans hbody)
        exact ⟨hnext, fun u hu => hu.hop hcurrent hi⟩
      · obtain rfl := Option.some.inj (hstep.symm.trans hbody)
        exact ⟨hnext, fun u hu => hu.wait hcurrent hdown hstatus⟩
    · exact (whileLoop_invariant (I := OnWay) (fun s t hs hc hbody => by
        obtain ⟨u, hu, hnext⟩ := hsafe s hs hc
        rw [hu] at hbody
        exact Outcome.done.inj hbody ▸ hnext) fuel w hw hrun).1

/-- The walk at the first node. -/
def Walk.start (network : Network) (state : BitVec 64) (i : Fin netNodes) : Walk :=
  { network, state, currentNode := i, currentCost := network.cost senderIndex i, path := [i.val] }

/-- **The first node.** -/
theorem Ready.start (hnet : Ready network) (state : BitVec 64) :
    ∃ i : Fin netNodes, Cheapest network senderIndex 0 netNodes i ∧
      OnWay (Walk.start network state i) ∧
      ∀ fuel, greedyPath fuel network state = routeLoop fuel (Walk.start network state i) := by
  have hfirst := firstNode_eq hnet.senderCost
  rcases cheapestOf_spec network senderIndex 0 netNodes with ⟨-, hall⟩ | ⟨i, hi, hcheap⟩
  · obtain ⟨i, hup⟩ := hnet.firstLevel
    have hdown := hall i i.isLt
    rw [Nat.zero_add, hup] at hdown
    exact absurd hdown.symm Bool.false_ne_true
  · refine ⟨i, hcheap, ⟨hnet.reciever, hnet.hopCost, ?_⟩, fun fuel => ?_⟩
    · exact le_trans i.isLt.le (by decide)
    · rw [greedyPath, hfirst, hi]
      rfl

/-! ## The status of all nodes -/

theorem downCount_eq {count : ℕ} (h : count ≤ netSize) :
    (List.range count).foldlM
        (fun c i => (network.get i).map fun node => if node.up then c else c + 1) 0 =
      some ((List.range count).countP fun i => !network.up i) := by
  induction count with
  | zero => rfl
  | succ count ih =>
      rw [List.range_succ, List.foldlM_append, ih (by omega), Option.bind_eq_bind,
        Option.bind_some, List.foldlM_cons, get_eq (by omega), List.countP_append,
        List.countP_singleton]
      cases network.up count <;> rfl

/-- Some node of the first level is up after the check, and nothing else is lost by it. -/
theorem ensureFirstLevel_spec (network : Network) (state : BitVec 64) :
    ∃ network' state', ensureFirstLevel (network, state) = some (network', state') ∧
      (∃ i : Fin netNodes, network'.up i = true) ∧ (∀ n, network'.cost n = network.cost n) ∧
      network'.up recieverIndex = network.up recieverIndex ∧ ∃ k, state' = rand^[k] state := by
  have hn : netNodes = 4 := rfl
  have hs : netSize = 18 := rfl
  rw [ensureFirstLevel, downCount_eq (by decide), Option.bind_eq_bind, Option.bind_some]
  split_ifs with hdown
  · have hlt : umod2 (rand state).toNat 2 < 4 := by rw [umod2_eq]; omega
    have hin : umod2 (rand state).toNat 2 < netSize := by omega
    obtain ⟨network', hset, hget⟩ := set_spec network hin
      { up := true, neighborCost := network.cost (umod2 (rand state).toNat 2) }
    refine ⟨network', rand state, ?_, ⟨⟨umod2 (rand state).toNat 2, hlt⟩, ?_⟩, fun n => ?_, ?_,
      1, rfl⟩
    · simp only [get_eq hin, Option.bind_eq_bind, Option.bind_some, hset]
    · rw [Network.up, hget, if_pos rfl]
      rfl
    · by_cases hat : n = umod2 (rand state).toNat 2
      · subst hat
        funext i
        rw [Network.cost, hget, if_pos rfl]
        rfl
      · exact cost_of_get (by rw [hget, if_neg hat])
    · have hr : recieverIndex = 16 := rfl
      exact up_of_get (by rw [hget, if_neg (by omega)])
  · refine ⟨network, state, rfl, ?_, fun _ => rfl, rfl, 0, rfl⟩
    -- otherwise the count would be that of all nodes
    by_contra hnone
    refine hdown ?_
    have hall : ∀ i ∈ List.range netNodes, (!network.up i) = true := by
      intro i hi
      by_contra hup
      exact hnone ⟨⟨i, List.mem_range.mp hi⟩, by simpa using hup⟩
    rw [List.countP_eq_length.mpr hall, List.length_range]

/-- The sender draws new costs. -/
theorem randomSender_spec (network : Network) (state : BitVec 64) :
    ∃ network' state', randomSender (network, state) = some (network', state') ∧
      (∀ i, network'.cost senderIndex i < infinity) ∧
      (∀ n, n ≠ senderIndex → network'.get n = network.get n) ∧ state' = rand^[4] state := by
  have hin : senderIndex < netSize := by decide
  obtain ⟨network', hset, hget⟩ := set_spec network hin
    { up := network.up senderIndex, neighborCost := (randomCosts state).1 }
  refine ⟨network', (randomCosts state).2, ?_, fun i => ?_, fun n hn => by rw [hget, if_neg hn],
    rfl⟩
  · rw [randomSender, get_eq hin, Option.bind_eq_bind, Option.bind_some, hset]
    rfl
  · rw [Network.cost, hget, if_pos rfl]
    exact tenBits_lt _

/-- **`random_status_all`** leaves a network that is ready, if the receiver is up. -/
theorem randomStatusAll_ready (hup : network.up recieverIndex = true) (state : BitVec 64) :
    ∃ network' state', randomStatusAll network state = some (network', state') ∧
      Ready network' ∧ ∃ k, state' = rand^[k] state := by
  have hr : recieverIndex = 16 := rfl
  have hs : senderIndex = 17 := rfl
  have hn : netNodes = 4 := rfl
  obtain ⟨net₁, hrun₁, href⟩ := randomNodes_spec network state
    (show 0 + (netSize - 2) ≤ netSize by decide)
  simp only [Nat.zero_add] at hrun₁
  obtain ⟨net₂, state₂, hrun₂, ⟨i, hi⟩, hcost₂, hup₂, k, hstate₂⟩ :=
    ensureFirstLevel_spec net₁ (rand^[5 * (netSize - 2)] state)
  obtain ⟨net₃, state₃, hrun₃, hcost₃, hframe₃, hstate₃⟩ := randomSender_spec net₂ state₂
  refine ⟨net₃, state₃, ?_, ⟨?_, ⟨i, ?_⟩, hcost₃, fun n hn i hi => ?_⟩,
    4 + (k + 5 * (netSize - 2)), ?_⟩
  · rw [randomStatusAll, Option.bind_eq_bind, hrun₁, Option.bind_some, hrun₂, Option.bind_some,
      hrun₃]
  · rw [up_of_get (hframe₃ recieverIndex (by decide)), hup₂,
      up_of_get (href.frame recieverIndex (.inr (by decide)))]
    exact hup
  · rw [up_of_get (hframe₃ i (by omega))]
    exact hi
  · rw [cost_of_get (hframe₃ n (by omega)), hcost₂]
    have hin := href.cost n (by rw [show netSize - 2 = 16 from rfl]; omega) i
    rwa [Nat.zero_add] at hin
  · rw [hstate₃, hstate₂, Function.iterate_add_apply, Function.iterate_add_apply]

theorem initNode_eq (v : Network × BitVec 64) (index : ℕ) :
    initNode v index = (v.1.set index { up := true, neighborCost := (randomCosts v.2).1 }).map
      fun network => (network, rand^[4] v.2) := by
  rw [initNode]
  cases Network.set v.1 index _ <;> rfl

/-- **`network_init`** leaves a network that is ready, whatever the array held. -/
theorem networkInit_ready (network : Network) (state : BitVec 64) :
    ∃ network' state', networkInit network state = some (network', state') ∧ Ready network' ∧
      ∃ k, state' = rand^[k] state := by
  have hr : recieverIndex = 16 := rfl
  have hs : senderIndex = 17 := rfl
  have hn : netNodes = 4 := rfl
  obtain ⟨net₁, hrun₁, hget₁, -⟩ := setNodes_spec
    (fun s => { up := true, neighborCost := (randomCosts s).1 }) initNode_eq network state
    (show 0 + (netSize - 2) ≤ netSize by decide)
  simp only [Nat.zero_add] at hrun₁ hget₁
  obtain ⟨net₂, hset₂, hget₂⟩ := set_spec net₁ (show recieverIndex < netSize by decide)
    { up := true, neighborCost := fun _ => -1 }
  obtain ⟨net₃, hset₃, hget₃⟩ := set_spec net₂ (show senderIndex < netSize by decide)
    { up := true, neighborCost := (randomCosts (rand^[4 * (netSize - 2)] state)).1 }
  have hinner : ∀ n < recieverIndex, net₃.get n =
      some { up := true, neighborCost := (randomCosts (rand^[4 * n] state)).1 } := fun n hlt => by
    rw [hget₃, if_neg (by omega), hget₂, if_neg (by omega), hget₁ n hlt]
  refine ⟨net₃, (randomCosts (rand^[4 * (netSize - 2)] state)).2, ?_,
    ⟨?_, ⟨⟨0, by decide⟩, ?_⟩, fun i => ?_, fun n hlt i _ => ?_⟩, 4 + 4 * (netSize - 2), ?_⟩
  · rw [networkInit, Option.bind_eq_bind, hrun₁, Option.bind_some]
    simp only [Option.bind_eq_bind, hset₂, Option.bind_some, hset₃]
  · rw [Network.up, hget₃, if_neg (by decide), hget₂, if_pos rfl]
    rfl
  · rw [Network.up, hinner 0 (by decide)]
    rfl
  · rw [Network.cost, hget₃, if_pos rfl]
    exact tenBits_lt _
  · rw [Network.cost, hinner n hlt]
    exact tenBits_lt _
  · rw [Function.iterate_add_apply]
    rfl

/--
**Greedy routing.** On a network that is ready, `greedy_path` never uses an index outside
the network, and when it returns, the path is a route from the cheapest first node, ends at
the receiver and comes there only then, and the cost is that of the sender and the route.
Between runs, `random_status_all` makes the network ready again.
-/
theorem greedy_path_valid (hnet : Ready network) (state : BitVec 64) (fuel : ℕ) :
    greedyPath fuel network state ≠ .fault ∧
      (∀ w, greedyPath fuel network state = .done w →
        (∃ (i : Fin netNodes) (rest : List ℕ) (cost : BitVec 64),
          Cheapest network senderIndex 0 netNodes i ∧
          Route network state i rest cost w.network w.state ∧ w.path = i.val :: rest ∧
          w.currentCost = network.cost senderIndex i + cost) ∧
        (∃ front, w.path = front ++ [recieverIndex] ∧ ∀ n ∈ front, n < recieverIndex) ∧
        w.network.up recieverIndex = true) ∧
      ∀ network state, network.up recieverIndex = true →
        ∃ network' state', randomStatusAll network state = some (network', state') ∧
          Ready network' := by
  obtain ⟨i, hcheap, hway, hstart⟩ := hnet.start state
  obtain ⟨hsafe, hdone⟩ := routing_loop hway fuel
  rw [hstart]
  refine ⟨hsafe, fun w hrun => ?_, fun network state hup => ?_⟩
  · obtain ⟨⟨rest, cost, hroute, hpath, hcost⟩, hend⟩ := hdone w hrun
    refine ⟨⟨i, rest, cost, hcheap, hroute, hpath, hcost⟩, ?_, hend.reciever⟩
    rw [hpath]
    exact hroute.path
  · obtain ⟨network', state', hrun, hready, -⟩ := randomStatusAll_ready hup state
    exact ⟨network', state', hrun, hready⟩

/-- The nodes below `n` are up, and the endpoints; all links are free. -/
def upBelow (n : ℕ) : Network :=
  fun index => { up := index.val < n || 16 ≤ index.val, neighborCost := fun _ => 0 }

theorem upBelow_ready {n : ℕ} (hn : 0 < n) : Ready (upBelow n) where
  reciever := by
    change (decide (16 < n) || true) = true
    exact Bool.or_true _
  firstLevel := ⟨⟨0, by decide⟩, by
    change (decide (0 < n) || false) = true
    rw [decide_eq_true hn]
    rfl⟩
  senderCost := fun i => by change (0 : BitVec 64) < infinity; decide
  hopCost := fun k hk i _ => by
    have hlt : k < netSize := Nat.lt_trans hk (by decide)
    have hcost : (upBelow n).cost k i = 0 := by
      rw [Network.cost, Network.get, dif_pos hlt]
      rfl
    rw [hcost]
    decide

/-- The second level is down: the first node waits for it. -/
theorem greedy_path_valid_waiting : greedyPath 40 (upBelow 4) 1 ≠ .fault ∧
    ∀ w, greedyPath 40 (upBelow 4) 1 = .done w →
      ∃ front, w.path = front ++ [recieverIndex] ∧ ∀ n ∈ front, n < recieverIndex :=
  have h := greedy_path_valid (upBelow_ready (n := 4) (by decide)) 1 40
  ⟨h.1, fun w hw => (h.2.1 w hw).2.1⟩

end Dtn

end Soft

end PassiFlo
