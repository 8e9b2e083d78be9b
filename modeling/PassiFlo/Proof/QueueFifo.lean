import PassiFlo.Soft.Queue
import PassiFlo.Lib.Fifo
import PassiFlo.Lib.Clocked

/-!
# The queue is a queue for its first 64 values

Fullness is judged by the count, but the write position only ever moves up: once 64
values have been accepted, the next one that finds room is written past the end of the
array, however many were removed in between. And the count is decremented by what the
caller asks for, not by what there is. Short of those two the struct represents the
queue of its history, and the first call that does either breaks it.
-/

namespace PassiFlo

namespace Soft

open Clocked

/-! ## The specification -/

/-- What a call does to a bounded queue. -/
def QueueCall.spec : QueueCall → Fifo (BitVec 32) → Fifo (BitVec 32)
  | .enqueue value, h => if h.contents.length < maxQueueSize then h.push value else h
  | .dequeue n, h => h.pop n.toNat

/-- The struct holds what the history says. -/
structure Represents (q : Queue) (h : Fifo (BitVec 32)) : Prop where
  size_le : q.size.toNat ≤ maxQueueSize
  size_eq : q.size = q.last - q.first + 1
  length : h.contents.length = q.size.toNat
  /-- `data[first..last]`, in order. -/
  data : ∀ k < q.size.toNat, load q.data (q.first + BitVec.ofNat 64 k) = h.contents[k]?

/-- Every prefix of the calls stays inside the array and leaves a queue. -/
def StaysQueue (q : Queue) (h : Fifo (BitVec 32)) (calls : List QueueCall) : Prop :=
  ∀ p, p <+: calls → ∃ q', runCalls q p = some q' ∧ Represents q' (run QueueCall.spec p h)

/--
The call is one the array has room for: no value is accepted after the first 64, and
nobody removes more than there is from a queue that is not empty.
-/
def InLimits : QueueCall → Fifo (BitVec 32) → Prop
  | .enqueue _, h => h.contents.length < maxQueueSize → h.accepted.length < maxQueueSize
  | .dequeue n, h => h.contents ≠ [] → n.toNat ≤ h.contents.length

instance (c : QueueCall) (h : Fifo (BitVec 32)) : Decidable (InLimits c h) := by
  cases c <;> unfold InLimits <;> infer_instance

/-! ## The invariant -/

/-- Slots are used in order and never again: slot `k` holds the `k`-th value accepted. -/
structure SlotInv (q : Queue) (h : Fifo (BitVec 32)) : Prop where
  first : q.first = BitVec.ofNat 64 h.removed
  last : q.last + 1 = BitVec.ofNat 64 h.accepted.length
  size : q.size = BitVec.ofNat 64 h.contents.length
  bound : h.accepted.length ≤ maxQueueSize
  data : ∀ k < h.accepted.length, load q.data (BitVec.ofNat 64 k) = h.accepted[k]?

variable {q : Queue} {h : Fifo (BitVec 32)}

theorem slotInv_init (data : Fin maxQueueSize → BitVec 32) :
    SlotInv (queueInit data) Fifo.empty where
  first := rfl
  last := show (-1 : BitVec 64) + 1 = 0 by decide
  size := rfl
  bound := Nat.zero_le _
  data := fun k hk => absurd hk (Nat.not_lt_zero k)

theorem SlotInv.length_le (hq : SlotInv q h) : h.contents.length ≤ 64 := by
  have hb : h.accepted.length ≤ 64 := hq.bound
  have hsum := h.removed_add_length
  omega

theorem SlotInv.size_toNat (hq : SlotInv q h) : q.size.toNat = h.contents.length := by
  have hle := hq.length_le
  rw [hq.size, BitVec.toNat_ofNat, Nat.mod_eq_of_lt (by omega)]

theorem SlotInv.isFull_iff (hq : SlotInv q h) :
    isFull q = true ↔ ¬ h.contents.length < maxQueueSize := by
  have hle := hq.length_le
  have h64 : (BitVec.ofNat 64 maxQueueSize).toNat = 64 := rfl
  rw [isFull, beq_iff_eq, ← BitVec.toNat_inj, hq.size_toNat, h64, maxQueueSize]
  omega

theorem SlotInv.isEmpty_iff (hq : SlotInv q h) : isEmpty q = true ↔ h.contents = [] := by
  rw [isEmpty, beq_iff_eq, ← BitVec.toNat_inj, hq.size_toNat, ← List.length_eq_zero_iff]
  rfl

theorem slotInv_represents (hq : SlotInv q h) : Represents q h where
  size_le := by
    rw [hq.size_toNat]
    exact hq.length_le
  size_eq := by
    have hlast : q.last = BitVec.ofNat 64 h.accepted.length - 1 := by
      rw [← hq.last, BitVec.add_sub_cancel]
    rw [hq.size, hlast, hq.first, ← h.removed_add_length, BitVec.ofNat_add]
    bv_omega
  length := hq.size_toNat.symm
  data := by
    intro k hk
    rw [hq.size_toNat] at hk
    have hsum := h.removed_add_length
    rw [hq.first, ← BitVec.ofNat_add, hq.data (h.removed + k) (by omega), h.contents_getElem?]

/-! ## One call -/

/-- A store to a slot, and what is read back. -/
theorem load_store {data data' : Fin maxQueueSize → BitVec 32} {i : BitVec 64} {v : BitVec 32}
    (hs : store data i v = some data') (j : BitVec 64) :
    load data' j = if j = i then some v else load data j := by
  unfold store at hs
  split at hs
  · rename_i hi
    obtain rfl := Option.some.inj hs
    unfold load
    by_cases hji : j = i
    · subst hji
      rw [dif_pos hi, Function.update_self, if_pos rfl]
    · rw [if_neg hji]
      split
      · rename_i hj
        have hne : (⟨j.toNat, hj⟩ : Fin maxQueueSize) ≠ ⟨i.toNat, hi⟩ := fun he =>
          hji (BitVec.eq_of_toNat_eq (Fin.mk.inj he))
        rw [Function.update_of_ne hne]
      · rfl
  · exact absurd hs (by simp)

theorem store_isSome {data : Fin maxQueueSize → BitVec 32} {i : BitVec 64} {v : BitVec 32}
    (hi : i.toNat < maxQueueSize) : ∃ data', store data i v = some data' :=
  ⟨_, dif_pos hi⟩

/-- **A value that is accepted** goes to the next slot. -/
theorem slotInv_push (hq : SlotInv q h) (hacc : h.accepted.length < maxQueueSize) (v : BitVec 32)
    {data : Fin maxQueueSize → BitVec 32} (hs : store q.data (q.last + 1) v = some data) :
    SlotInv { q with data := data, last := q.last + 1, size := q.size + 1 } (h.push v) where
  first := hq.first
  last := by
    change q.last + 1 + 1 = _
    rw [hq.last, Fifo.push, List.length_append]
    exact (BitVec.ofNat_add _ _).symm
  size := by
    change q.size + 1 = _
    rw [hq.size, h.contents_push, List.length_append]
    exact (BitVec.ofNat_add _ _).symm
  bound := by
    rw [Fifo.push, List.length_append]
    exact hacc
  data := by
    intro k hk
    have hk' : k < h.accepted.length + 1 := by rwa [Fifo.push, List.length_append] at hk
    have h64 : h.accepted.length < 64 := hacc
    rw [load_store hs, hq.last, Fifo.push]
    rcases Nat.lt_succ_iff_lt_or_eq.mp hk' with hlt | rfl
    · have hne : BitVec.ofNat 64 k ≠ BitVec.ofNat 64 h.accepted.length := by
        rw [ne_eq, ← BitVec.toNat_inj, BitVec.toNat_ofNat, BitVec.toNat_ofNat,
          Nat.mod_eq_of_lt (by omega), Nat.mod_eq_of_lt (by omega)]
        omega
      rw [if_neg hne, hq.data k hlt, List.getElem?_append_left hlt]
    · rw [if_pos rfl, List.getElem?_append_right (Nat.le_refl _), Nat.sub_self]
      rfl

/-- **Values that are there** can be removed. -/
theorem slotInv_pop (hq : SlotInv q h) {n : BitVec 32} (hn : n.toNat ≤ h.contents.length) :
    SlotInv { q with first := q.first + n.setWidth 64, size := q.size - n.setWidth 64 }
      (h.pop n.toNat) where
  first := by
    change q.first + _ = BitVec.ofNat 64 (h.removed + min n.toNat h.contents.length)
    rw [hq.first, Nat.min_eq_left hn, BitVec.ofNat_add, BitVec.ofNat_toNat]
  last := hq.last
  size := by
    change q.size - _ = _
    rw [hq.size, h.contents_pop, List.length_drop, ← BitVec.ofNat_toNat,
      BitVec.ofNat_sub_ofNat_of_le _ _ (by have := n.isLt; omega) hn]
  bound := hq.bound
  data := hq.data

/-- Removing nothing. -/
theorem pop_eq_self {n : Nat} (hn : n = 0 ∨ h.contents = []) : h.pop n = h := by
  have hmin : min n h.contents.length = 0 := by
    rcases hn with rfl | hc
    · exact Nat.zero_min _
    · rw [hc]; exact Nat.min_zero _
  simp only [Fifo.pop, hmin, Nat.add_zero]

/-- **The step.** A call in limits keeps the invariant. -/
theorem slotInv_step (hq : SlotInv q h) {c : QueueCall} (hc : InLimits c h) :
    ∃ q', c.run q = some q' ∧ SlotInv q' (c.spec h) := by
  cases c with
  | enqueue v =>
      by_cases hfull : h.contents.length < maxQueueSize
      · have hnot : isFull q = false := Bool.eq_false_iff.mpr fun hf => hq.isFull_iff.mp hf hfull
        have hacc := hc hfull
        have hslot : (q.last + 1).toNat < maxQueueSize := by
          have h64 : h.accepted.length < 64 := hacc
          rw [hq.last, BitVec.toNat_ofNat, Nat.mod_eq_of_lt (by omega)]
          exact hacc
        obtain ⟨data, hs⟩ : ∃ data, store q.data (q.last + 1) v = some data := store_isSome hslot
        refine ⟨{ q with data := data, last := q.last + 1, size := q.size + 1 }, ?_, ?_⟩
        · rw [QueueCall.run, enqueue_room hnot, hs]
          rfl
        · rw [QueueCall.spec, if_pos hfull]
          exact slotInv_push hq hacc v hs
      · refine ⟨q, ?_, ?_⟩
        · rw [QueueCall.run, enqueue, if_pos (hq.isFull_iff.mpr hfull)]
        · rw [QueueCall.spec, if_neg hfull]
          exact hq
  | dequeue n =>
      refine ⟨_, rfl, ?_⟩
      rw [QueueCall.spec]
      by_cases hempty : h.contents = []
      · rw [dequeue_none (.inl (hq.isEmpty_iff.mpr hempty)), pop_eq_self (.inr hempty)]
        exact hq
      · have hnot : isEmpty q = false :=
          Bool.eq_false_iff.mpr fun he => hempty (hq.isEmpty_iff.mp he)
        by_cases hzero : n = 0
        · rw [dequeue_none (.inr hzero), pop_eq_self (.inl (congrArg BitVec.toNat hzero))]
          exact hq
        · rw [dequeue_some hnot hzero]
          exact slotInv_pop hq (hc hempty)

/-- **Out of limits.** The call leaves the array, or a count that no queue has. -/
theorem not_represents_step (hq : SlotInv q h) {c : QueueCall} (hc : ¬ InLimits c h)
    (h' : Fifo (BitVec 32)) : ¬ ∃ q', c.run q = some q' ∧ Represents q' h' := by
  intro hqueue
  obtain ⟨q', hrun, hrep⟩ := hqueue
  cases c with
  | enqueue v =>
      obtain ⟨hroom, hacc⟩ := Classical.not_imp.mp hc
      have hnot : isFull q = false := Bool.eq_false_iff.mpr fun hf => hq.isFull_iff.mp hf hroom
      have hslot : ¬ (q.last + 1).toNat < maxQueueSize := by
        have hb : h.accepted.length ≤ 64 := hq.bound
        rw [hq.last, BitVec.toNat_ofNat, Nat.mod_eq_of_lt (by omega)]
        exact hacc
      have hstore : store q.data (q.last + 1) v = none := dif_neg hslot
      rw [QueueCall.run, enqueue_room hnot, hstore] at hrun
      exact absurd hrun (by simp)
  | dequeue n =>
      obtain ⟨hsome, hover⟩ := Classical.not_imp.mp hc
      have hnot : isEmpty q = false := Bool.eq_false_iff.mpr fun he => hsome (hq.isEmpty_iff.mp he)
      have hzero : n ≠ 0 := fun h0 => hover (by rw [h0]; exact Nat.zero_le _)
      rw [QueueCall.run, dequeue_some hnot hzero] at hrun
      obtain rfl := Option.some.inj hrun
      -- the count has wrapped around
      have hsize : (q.size - n.setWidth 64).toNat ≤ 64 := hrep.size_le
      have hlen := hq.size_toNat
      have hle := hq.length_le
      have hlt := n.isLt
      rw [BitVec.toNat_sub, BitVec.toNat_setWidth,
        Nat.mod_eq_of_lt (a := n.toNat) (by omega)] at hsize
      omega

/-! ## Runs -/

theorem runCalls_cons (q : Queue) (c : QueueCall) (cs : List QueueCall) :
    runCalls q (c :: cs) = (c.run q).bind fun q' => runCalls q' cs := by
  rw [runCalls, List.foldlM_cons]
  rfl

theorem staysQueue_iff_along (hq : SlotInv q h) (calls : List QueueCall) :
    StaysQueue q h calls ↔ Along QueueCall.spec InLimits calls h := by
  induction calls generalizing q h with
  | nil =>
      refine iff_of_true (fun p hp => ?_) trivial
      rw [List.prefix_nil.mp hp]
      exact ⟨q, rfl, slotInv_represents hq⟩
  | cons c cs ih =>
      rw [StaysQueue, forall_prefix_cons]
      have hnow : ∃ q', runCalls q [] = some q' ∧ Represents q' (run QueueCall.spec [] h) :=
        ⟨q, rfl, slotInv_represents hq⟩
      rw [and_iff_right hnow]
      by_cases hc : InLimits c h
      · obtain ⟨q', hrun, hq'⟩ := slotInv_step hq hc
        have hrest : ∀ p, runCalls q (c :: p) = runCalls q' p := fun p => by
          rw [runCalls_cons, hrun, Option.bind_some]
        simp only [hrest, run_cons]
        exact (ih hq').trans (and_iff_right hc).symm
      · refine iff_of_false (fun hall => ?_) (fun ha => hc ha.1)
        obtain ⟨q', hrun, hrep⟩ := hall [] (List.nil_prefix ..)
        refine not_represents_step hq hc _ ⟨q', ?_, hrep⟩
        rw [runCalls_cons] at hrun
        exact (Option.bind_fun_some (c.run q)).symm.trans hrun

/--
**The queue is a queue** exactly as long as every call is in its limits.
-/
theorem staysQueue_iff (data : Fin maxQueueSize → BitVec 32) (calls : List QueueCall) :
    StaysQueue (queueInit data) Fifo.empty calls ↔
      Along QueueCall.spec InLimits calls Fifo.empty :=
  staysQueue_iff_along (slotInv_init data) calls

/-- After 64 values and a removal there is room, and the 65th leaves the array. -/
theorem queue_overruns :
    ¬ ∀ (data : Fin maxQueueSize → BitVec 32) (calls : List QueueCall),
      StaysQueue (queueInit data) Fifo.empty calls := by
  intro h
  obtain ⟨q, hq, -⟩ := h (fun _ => 0)
    (List.replicate 64 (.enqueue 7) ++ [.dequeue 1, .enqueue 8]) _ (List.prefix_refl _)
  have hnone : (runCalls (queueInit fun _ => 0)
      (List.replicate 64 (.enqueue 7) ++ [.dequeue 1, .enqueue 8])).isNone = true := by
    decide +kernel
  rw [hq] at hnone
  exact Bool.false_ne_true hnone

end Soft

end PassiFlo
