import PassiFlo.Soft.Queue
import PassiFlo.Lib.Loop

/-!
# Pairs in the queue

`sort` and `find` of `queue.c`, which take the live part of the array for pairs of
words. Loop variables are `uint32_t` and the bounds `unsigned long`, so every comparison
widens; an access past the array is a fault, and the indices accessed are kept.
-/

namespace PassiFlo

namespace Soft

open Loop

/-- The array during a run, with the indices accessed so far, the latest first. -/
structure Cells where
  data : Fin maxQueueSize → BitVec 32
  accessed : List (BitVec 32)

/-- `data[i]`. -/
def Cells.get (c : Cells) (i : BitVec 32) : Option (BitVec 32 × Cells) :=
  (load c.data (i.setWidth 64)).map fun value => (value, { c with accessed := i :: c.accessed })

/-- `data[i] = value`. -/
def Cells.set (c : Cells) (i value : BitVec 32) : Option Cells :=
  (store c.data (i.setWidth 64) value).map fun data => { data, accessed := i :: c.accessed }

def swap (data : Cells) (i j : BitVec 32) : Option Cells := do
  let (temp, data) ← data.get i
  let (other, data) ← data.get j
  let data ← data.set i other
  data.set j temp

/-- The body of the inner loop, on `j` and the array. -/
def compareSwap (v : BitVec 32 × Cells) : Option (BitVec 32 × Cells) := do
  let j := v.1
  let (next, data) ← v.2.get (j + 2)
  let (this, data) ← data.get j
  let data ← if next < this then do
      let data ← swap data j (j + 2)
      swap data (j + 1) (j + 3)
    else some data
  some (j + 2, data)

/-- The inner loop. -/
def sortPass (fuel : ℕ) (queue : Queue) (data : Cells) : Outcome Cells := do
  let v ← whileLoop (fun v => v.1.setWidth 64 < queue.last - 1)
    (fun v => .ofOption (compareSwap v)) fuel (queue.first.setWidth 32, data)
  return v.2

/-- The queue afterwards and the indices accessed. -/
def sort (fuel : ℕ) (queue : Queue) : Outcome (Queue × List (BitVec 32)) := do
  let v ← whileLoop (fun v : BitVec 32 × Cells => v.1.setWidth 64 < queue.size >>> 1)
    (fun v => do
      let data ← sortPass fuel queue v.2
      return (v.1 + 1, data))
    fuel (0, { data := queue.data, accessed := [] })
  return ({ queue with data := v.2.data }, v.2.accessed)

/-- `INFINITY` as an `uint32_t`. -/
def infinity : BitVec 32 := ~~~0

/-- The variables of the loop of `find`. -/
structure FindVars where
  i : BitVec 32
  index : BitVec 32
  /-- The `break` was taken. -/
  broke : Bool

/-- The body of the loop of `find`. -/
def findStep (queue : Queue) (item : BitVec 32) (v : FindVars) : Option FindVars := do
  let value ← load queue.data (v.i.setWidth 64)
  if value == item then some { v with index := v.i, broke := true }
  else some { v with i := v.i + 2 }

def find (fuel : ℕ) (queue : Queue) (item : BitVec 32) : Outcome (BitVec 32) := do
  let v ← whileLoop (fun v => !v.broke && v.i.setWidth 64 < queue.last)
    (fun v => .ofOption (findStep queue item v)) fuel
    { i := (queue.first + 1).setWidth 32, index := infinity, broke := false }
  return v.index - 1

/-! ## The live pairs -/

/-- The word at an index, 0 outside the array. -/
def cell (data : Fin maxQueueSize → BitVec 32) (n : ℕ) : BitVec 32 :=
  if h : n < maxQueueSize then data ⟨n, h⟩ else 0

/-- The pairs from index `n` on. -/
def pairsFrom (data : Fin maxQueueSize → BitVec 32) : ℕ → ℕ → List (BitVec 32 × BitVec 32)
  | _, 0 => []
  | n, m + 1 => (cell data n, cell data (n + 1)) :: pairsFrom data (n + 2) m

/-- `(data[first+2k], data[first+2k+1])` for all `k` below `size / 2`. -/
def Queue.pairs (queue : Queue) : List (BitVec 32 × BitVec 32) :=
  pairsFrom queue.data queue.first.toNat (queue.size.toNat / 2)

/-- The live region consists of pairs and lies in the array. An empty one may be anywhere. -/
structure PairRegion (queue : Queue) : Prop where
  even : queue.size.toNat % 2 = 0
  last : queue.last = queue.first + queue.size - 1
  bound : queue.size ≠ 0 → queue.first.toNat + queue.size.toNat ≤ maxQueueSize

end Soft

end PassiFlo
