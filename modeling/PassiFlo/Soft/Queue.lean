import Mathlib

/-!
# The queue of the C programs

`queue.c`: an array of 64 words with the indices of the first and the last live one
and a separate count. The indices are `unsigned long`, so arithmetic on them wraps at
2^64; the array is the first member of the struct, so a store past its end would land
in the indices. C gives such a store no meaning, and neither does the model: it ends
the run.
-/

namespace PassiFlo

namespace Soft

/-- `MAX_QUEUE_SIZE`. -/
def maxQueueSize : Nat := 64

/-- `struct queue`. -/
structure Queue where
  data : Fin maxQueueSize → BitVec 32
  first : BitVec 64
  last : BitVec 64
  size : BitVec 64

/-- `data[i]`, where it exists. -/
def load (data : Fin maxQueueSize → BitVec 32) (i : BitVec 64) : Option (BitVec 32) :=
  if h : i.toNat < maxQueueSize then some (data ⟨i.toNat, h⟩) else none

/-- `data[i] = value`, where it exists. -/
def store (data : Fin maxQueueSize → BitVec 32) (i : BitVec 64) (value : BitVec 32) :
    Option (Fin maxQueueSize → BitVec 32) :=
  if h : i.toNat < maxQueueSize then some (Function.update data ⟨i.toNat, h⟩ value) else none

/-- `queue_init`, whose array is whatever the stack held. -/
def queueInit (data : Fin maxQueueSize → BitVec 32) : Queue :=
  { data := data, first := 0, last := -1, size := 0 }

def isEmpty (queue : Queue) : Bool := queue.size == 0

def isFull (queue : Queue) : Bool := queue.size == BitVec.ofNat 64 maxQueueSize

def enqueue (queue : Queue) (value : BitVec 32) : Option Queue :=
  if isFull queue then some queue
  else
    let last := queue.last + 1
    (store queue.data last value).map fun data =>
      { queue with data := data, last := last, size := queue.size + 1 }

def dequeue (queue : Queue) (n : BitVec 32) : Queue :=
  if !isEmpty queue && 0 < n then
    { queue with first := queue.first + n.setWidth 64, size := queue.size - n.setWidth 64 }
  else queue

theorem enqueue_room {queue : Queue} (h : isFull queue = false) (value : BitVec 32) :
    enqueue queue value = (store queue.data (queue.last + 1) value).map fun data =>
      { queue with data := data, last := queue.last + 1, size := queue.size + 1 } := by
  rw [enqueue, h, if_neg Bool.false_ne_true]

theorem dequeue_some {queue : Queue} (h : isEmpty queue = false) {n : BitVec 32} (hn : n ≠ 0) :
    dequeue queue n =
      { queue with first := queue.first + n.setWidth 64, size := queue.size - n.setWidth 64 } := by
  have hpos : (0 < n) = True := eq_true (by bv_omega)
  simp only [dequeue, h, hpos, Bool.not_false, decide_true, Bool.and_true, if_true]

theorem dequeue_none {queue : Queue} {n : BitVec 32} (h : isEmpty queue = true ∨ n = 0) :
    dequeue queue n = queue := by
  rcases h with h | rfl
  · rw [dequeue, h]; rfl
  · rw [dequeue]
    cases isEmpty queue <;> rfl

/-! ## Programs -/

/-- A call to the queue. -/
inductive QueueCall
  | enqueue (value : BitVec 32)
  | dequeue (n : BitVec 32)

/-- The effect of a call. -/
def QueueCall.run (queue : Queue) : QueueCall → Option Queue
  | .enqueue value => Soft.enqueue queue value
  | .dequeue n => some (Soft.dequeue queue n)

/-- The effect of a sequence of calls. -/
def runCalls (queue : Queue) (calls : List QueueCall) : Option Queue :=
  calls.foldlM QueueCall.run queue

end Soft

end PassiFlo
