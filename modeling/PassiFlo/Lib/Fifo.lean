import Mathlib

/-!
# Queues by their history

What a first-in first-out queue holds is decided by two facts about its past: which
values were accepted, in order, and how many of the oldest were removed. Keeping both,
rather than only what is left, is what lets a bounded buffer that never reuses its
slots be compared with a queue at all.
-/

/-- The past of a queue. -/
structure Fifo (α : Type*) where
  /-- Every value accepted so far, oldest first. -/
  accepted : List α
  /-- How many of them are gone. -/
  removed : ℕ
  removed_le : removed ≤ accepted.length

namespace Fifo

variable {α : Type*}

/-- Nothing has happened. -/
def empty : Fifo α := ⟨[], 0, Nat.le_refl 0⟩

/-- What the queue holds. -/
def contents (h : Fifo α) : List α := h.accepted.drop h.removed

/-- Accept a value. -/
def push (h : Fifo α) (x : α) : Fifo α where
  accepted := h.accepted ++ [x]
  removed := h.removed
  removed_le := by
    rw [List.length_append]
    exact Nat.le_add_right_of_le h.removed_le

/-- Remove the `n` oldest values, or all of them if there are fewer. -/
def pop (h : Fifo α) (n : ℕ) : Fifo α where
  accepted := h.accepted
  removed := h.removed + min n h.contents.length
  removed_le := by
    have hle := h.removed_le
    rw [contents, List.length_drop]
    omega

theorem length_contents (h : Fifo α) : h.contents.length = h.accepted.length - h.removed :=
  List.length_drop

/-- Nothing is lost and nothing is made up. -/
theorem removed_add_length (h : Fifo α) : h.removed + h.contents.length = h.accepted.length := by
  have hle := h.removed_le
  rw [length_contents]
  omega

/-- The contents, by position in the past. -/
theorem contents_getElem? (h : Fifo α) (k : ℕ) :
    h.contents[k]? = h.accepted[h.removed + k]? :=
  List.getElem?_drop

/-- Values come in at the back. -/
theorem contents_push (h : Fifo α) (x : α) : (h.push x).contents = h.contents ++ [x] :=
  List.drop_append_of_le_length h.removed_le

/-- Values leave at the front. -/
theorem contents_pop (h : Fifo α) (n : ℕ) : (h.pop n).contents = h.contents.drop n := by
  have hsplit : (h.pop n).contents = h.contents.drop (min n h.contents.length) :=
    List.drop_drop.symm
  by_cases hn : n ≤ h.contents.length
  · rw [hsplit, Nat.min_eq_left hn]
  · have hlen : h.contents.length ≤ n := by omega
    rw [hsplit, Nat.min_eq_right hlen, List.drop_length, List.drop_of_length_le hlen]

end Fifo
