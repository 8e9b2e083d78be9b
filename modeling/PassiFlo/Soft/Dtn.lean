import PassiFlo.Soft.Rand
import PassiFlo.Lib.Loop

/-!
# The delay-tolerant network

`dtn.c`: sixteen nodes in four levels, a sender before the first level and a receiver
after the last. A message goes forward to the cheapest node that is up; where the whole
next level is down it is handed around within its own level, and the next level draws a
new status each time.

Costs are `unsigned long` and wrap. Indices into the network are far too small to, and
are natural numbers; an index outside the network is a fault. The path is the list of
what is written to the caller's array, in order.
-/

namespace PassiFlo

namespace Soft

namespace Dtn

open Loop

/-- `NET_COUNT_BITS`. -/
def netCountBits : ℕ := 2

/-- `NET_NODES`. -/
def netNodes : ℕ := 1 <<< netCountBits

/-- `NET_LEVELS`. -/
def netLevels : ℕ := 1 <<< netCountBits

/-- `NET_SIZE`. -/
def netSize : ℕ := netNodes * netLevels + 2

/-- `SENDER_INDEX`. -/
def senderIndex : ℕ := netSize - 1

/-- `RECIEVER_INDEX`. -/
def recieverIndex : ℕ := netSize - 2

/-- `INFINITY`. -/
def infinity : BitVec 64 := ~~~0

/-- `SAME_LEVEL_COST`. -/
def sameLevelCost : BitVec 64 := 10

/-- `PATH_MAX_SIZE`. -/
def pathMaxSize : ℕ := netSize * 3

/-- `UMOD2`. -/
def umod2 (n bits : ℕ) : ℕ := n &&& ((1 <<< bits) - 1)

/-- `GET_LEVEL`. -/
def getLevel (index : ℕ) : ℕ := index >>> netCountBits

/-- `Node_t`. -/
structure Node where
  up : Bool
  neighborCost : Fin netNodes → BitVec 64

abbrev Network := Fin netSize → Node

/-- `network[index]`. -/
def Network.get (network : Network) (index : ℕ) : Option Node :=
  if h : index < netSize then some (network ⟨index, h⟩) else none

/-- `network[index] = node`. -/
def Network.set (network : Network) (index : ℕ) (node : Node) : Option Network :=
  if h : index < netSize then some (Function.update network ⟨index, h⟩ node) else none

/-! ## Random status -/

/-- Ten bits of a number that `rand` returned. -/
def tenBits (r : BitVec 64) : BitVec 64 := BitVec.ofNat 64 (umod2 r.toNat 10)

/-- `UMOD2(rand(), 10) >= 973`. -/
def drawsUp (r : BitVec 64) : Bool := 973 ≤ umod2 r.toNat 10

/-- The loop over `neighbor_cost`, one `rand` each. -/
def randomCosts (state : BitVec 64) : (Fin netNodes → BitVec 64) × BitVec 64 :=
  (fun j => tenBits (rand^[j.val + 1] state), rand^[netNodes] state)

/-- The new status of `network[index]`, in both functions below. -/
def randomNode (v : Network × BitVec 64) (index : ℕ) : Option (Network × BitVec 64) := do
  let r := rand v.2
  let costs := randomCosts r
  let network ← v.1.set index { up := drawsUp r, neighborCost := costs.1 }
  some (network, costs.2)

/-- `random_status_level`, with the state of the generator. -/
def randomStatusLevel (network : Network) (level : ℕ) (state : BitVec 64) :
    Option (Network × BitVec 64) :=
  (List.range netNodes).foldlM (fun v i => randomNode v (level * netNodes + i)) (network, state)

/-- The check of `random_status_all` that at least one node of the first level is up. -/
def ensureFirstLevel (v : Network × BitVec 64) : Option (Network × BitVec 64) := do
  let downCount ← (List.range netNodes).foldlM
    (fun count i => (v.1.get i).map fun node => if node.up then count else count + 1) 0
  if downCount = netNodes then do
    let r := rand v.2
    let index := umod2 r.toNat 2
    let node ← v.1.get index
    let network ← v.1.set index { node with up := true }
    some (network, r)
  else some v

/-- The end of `random_status_all`: new costs to send to the first level. -/
def randomSender (v : Network × BitVec 64) : Option (Network × BitVec 64) := do
  let costs := randomCosts v.2
  let sender ← v.1.get senderIndex
  let network ← v.1.set senderIndex { sender with neighborCost := costs.1 }
  some (network, costs.2)

/-- `random_status_all`, with the state of the generator. -/
def randomStatusAll (network : Network) (state : BitVec 64) : Option (Network × BitVec 64) := do
  let v ← (List.range (netSize - 2)).foldlM randomNode (network, state)
  let v ← ensureFirstLevel v
  randomSender v

/-- An inner node of `network_init`. -/
def initNode (v : Network × BitVec 64) (index : ℕ) : Option (Network × BitVec 64) := do
  let costs := randomCosts v.2
  let network ← v.1.set index { up := true, neighborCost := costs.1 }
  some (network, costs.2)

/-- `network_init`, with the state of the generator. -/
def networkInit (network : Network) (state : BitVec 64) : Option (Network × BitVec 64) := do
  let v ← (List.range (netSize - 2)).foldlM initNode (network, state)
  -- endpoints
  let costs := randomCosts v.2
  let network ← v.1.set recieverIndex { up := true, neighborCost := fun _ => -1 }
  let network ← network.set senderIndex { up := true, neighborCost := costs.1 }
  some (network, costs.2)

/-! ## Routing -/

/-- One candidate for the first node: `current_node`, `min_cost` and `current_cost`. -/
def firstStep (network : Network) (v : ℕ × BitVec 64 × BitVec 64) (i : Fin netNodes) :
    Option (ℕ × BitVec 64 × BitVec 64) := do
  let node ← network.get i
  if node.up then do
    let sender ← network.get senderIndex
    if sender.neighborCost i < v.2.1 then
      some (i.val, sender.neighborCost i, sender.neighborCost i)
    else some v
  else some v

/-- The selection of the first node. -/
def firstNode (network : Network) : Option (ℕ × BitVec 64 × BitVec 64) :=
  (List.finRange netNodes).foldlM (firstStep network) (senderIndex, infinity, 0)

/-- `neighbor_count`. -/
def neighborCount (currentNode : ℕ) : ℕ :=
  if getLevel currentNode < netLevels - 1 then netNodes else 1

/-- One candidate for the next node: `next_node` and `min_cost`. -/
def nextStep (network : Network) (currentNode : ℕ) (v : ℕ × BitVec 64) (i : Fin netNodes) :
    Option (ℕ × BitVec 64) := do
  let neighborIndex := (getLevel currentNode + 1) * netNodes + i
  let neighbor ← network.get neighborIndex
  if neighbor.up then do
    let current ← network.get currentNode
    if current.neighborCost i < v.2 then some (neighborIndex, current.neighborCost i)
    else some v
  else some v

/-- The selection of the next node. -/
def nextNode (network : Network) (currentNode : ℕ) : Option (ℕ × BitVec 64) :=
  ((List.finRange netNodes).take (neighborCount currentNode)).foldlM
    (nextStep network currentNode) (currentNode, infinity)

/-- The variables of `greedy_path`, the network and the state of the generator. -/
structure Walk where
  network : Network
  state : BitVec 64
  currentNode : ℕ
  currentCost : BitVec 64
  path : List ℕ

/-- The body of the routing loop. -/
def routeStep (w : Walk) : Option Walk := do
  let next ← nextNode w.network w.currentNode
  if next.1 = w.currentNode then do
    -- all next nodes are down
    let currentNode := getLevel w.currentNode * netNodes + umod2 (w.currentNode + 1) 2
    let v ← randomStatusLevel w.network (getLevel currentNode + 1) w.state
    some { network := v.1, state := v.2, currentNode, currentCost := w.currentCost + sameLevelCost,
           path := w.path ++ [currentNode] }
  else
    some { w with currentNode := next.1, currentCost := w.currentCost + next.2,
                  path := w.path ++ [next.1] }

/-- The condition of the routing loop. -/
def Walk.unrouted (w : Walk) : Bool := getLevel w.currentNode != netLevels

/-- The routing loop. -/
def routeLoop (fuel : ℕ) (w : Walk) : Outcome Walk :=
  whileLoop Walk.unrouted (fun w => .ofOption (routeStep w)) fuel w

/-- `greedy_path`: where it ends, with the cost it returns. -/
def greedyPath (fuel : ℕ) (network : Network) (state : BitVec 64) : Outcome Walk := do
  let first ← firstNode network
  routeLoop fuel
    { network, state, currentNode := first.1, currentCost := first.2.2, path := [first.1] }

/-! ## The program -/

/-- `RUN_COUNT`. -/
def runCount : ℕ := 10

/-- The variables of `main`: the network and the state of the generator, `cost` and `paths`. -/
structure Runs where
  network : Network
  state : BitVec 64
  cost : List (BitVec 64)
  paths : List (BitVec 64)

/-- `path` when `greedy_path` has written to it, unless it wrote beyond its end. -/
def pathArray (path : List ℕ) : Option (List (BitVec 64)) :=
  if path.length ≤ pathMaxSize then
    some (path.map (BitVec.ofNat 64) ++ List.replicate (pathMaxSize - path.length) infinity)
  else none

/-- The body of the loop of `main`. -/
def runStep (fuel : ℕ) (r : Runs) : Outcome Runs := do
  let w ← greedyPath fuel r.network r.state
  let path ← pathArray w.path
  let v ← randomStatusAll w.network w.state
  return { network := v.1, state := v.2, cost := r.cost ++ [w.currentCost],
           paths := r.paths ++ path }

/-- Some rounds of the loop of `main`. -/
def runSteps (fuel : ℕ) : ℕ → Runs → Outcome Runs
  | 0, r => .done r
  | n + 1, r => runStep fuel r >>= runSteps fuel n

/-- `main` up to its loop, for any `SEED`. -/
def mainStart (network : Network) (seed : BitVec 64) : Option Runs :=
  (networkInit network (randInit seed)).map fun v =>
    { network := v.1, state := v.2, cost := [], paths := [] }

/-- `main`: what it leaves in its variables. -/
def main (fuel : ℕ) (network : Network) (seed : BitVec 64) : Outcome Runs := do
  let r ← mainStart network seed
  runSteps fuel runCount r

end Dtn

end Soft

end PassiFlo
