import Mathlib

/-!
# Bubble sort

One pass carries an element along the list, handing it over to every larger one it
meets; as many passes as there are elements sort the list. Elements are compared by a
key, and only strictly smaller keys overtake, so elements of one key stay in order.

Nothing here mentions a particular program.
-/

namespace Bubble

variable {α κ : Type*} [LinearOrder κ] (key : α → κ)

/-- Carry `x` along the list. -/
def carry (x : α) : List α → List α
  | [] => [x]
  | y :: ys => if key y < key x then y :: carry x ys else x :: carry y ys

/-- One pass. -/
def pass : List α → List α
  | [] => []
  | x :: xs => carry key x xs

@[simp] theorem pass_nil : pass key ([] : List α) = [] := rfl

@[simp] theorem pass_singleton (x : α) : pass key [x] = [x] := rfl

/-- One comparison of a pass. -/
theorem pass_cons_cons (x y : α) (ys : List α) :
    pass key (x :: y :: ys) =
      if key y < key x then y :: pass key (x :: ys) else x :: pass key (y :: ys) := rfl

/-! ## What a pass keeps -/

theorem carry_perm (x : α) (xs : List α) : (carry key x xs).Perm (x :: xs) := by
  induction xs generalizing x with
  | nil => exact List.Perm.refl _
  | cons y ys ih =>
      rw [carry]
      split_ifs
      · exact ((ih x).cons y).trans (List.Perm.swap x y ys)
      · exact (ih y).cons x

theorem pass_perm (xs : List α) : (pass key xs).Perm xs := by
  cases xs with
  | nil => exact List.Perm.refl _
  | cons x xs => exact carry_perm key x xs

/-- Elements of one key are not reordered. -/
theorem carry_filter (k : κ) (x : α) (xs : List α) :
    (carry key x xs).filter (fun z => key z = k) = (x :: xs).filter fun z => key z = k := by
  induction xs generalizing x with
  | nil => rfl
  | cons y ys ih =>
      rw [carry]
      split_ifs with hlt
      · -- the two that change places have different keys, so one of them is filtered out
        rw [List.filter_cons, ih x, List.filter_cons, List.filter_cons, List.filter_cons]
        by_cases hx : key x = k <;> by_cases hy : key y = k <;> simp [hx, hy]
        exact absurd hlt (by rw [hx, hy]; exact lt_irrefl k)
      · rw [List.filter_cons, ih y, List.filter_cons (x := x)]

theorem pass_filter (k : κ) (xs : List α) :
    (pass key xs).filter (fun z => key z = k) = xs.filter fun z => key z = k := by
  cases xs with
  | nil => rfl
  | cons x xs => exact carry_filter key k x xs

/-! ## What a pass achieves -/

/-- A largest element comes last. -/
theorem carry_last (x : α) (xs : List α) :
    ∃ ys m, carry key x xs = ys ++ [m] ∧ ∀ z ∈ ys, key z ≤ key m := by
  induction xs generalizing x with
  | nil => exact ⟨[], x, rfl, fun z hz => absurd hz List.not_mem_nil⟩
  | cons y ys ih =>
      rw [carry]
      split_ifs with hlt
      · obtain ⟨zs, m, hzs, hle⟩ := ih x
        refine ⟨y :: zs, m, by rw [hzs]; rfl, fun z hz => ?_⟩
        rcases List.mem_cons.mp hz with rfl | hz
        · have hx : x ∈ zs ++ [m] := hzs ▸ (carry_perm key x ys).mem_iff.mpr (List.mem_cons_self ..)
          rcases List.mem_append.mp hx with hx | hx
          · exact hlt.le.trans (hle x hx)
          · exact (List.mem_singleton.mp hx) ▸ hlt.le
        · exact hle z hz
      · obtain ⟨zs, m, hzs, hle⟩ := ih y
        refine ⟨x :: zs, m, by rw [hzs]; rfl, fun z hz => ?_⟩
        rcases List.mem_cons.mp hz with rfl | hz
        · have hy : y ∈ zs ++ [m] := hzs ▸ (carry_perm key y ys).mem_iff.mpr (List.mem_cons_self ..)
          rcases List.mem_append.mp hy with hy | hy
          · exact (not_lt.mp hlt).trans (hle y hy)
          · exact (List.mem_singleton.mp hy) ▸ not_lt.mp hlt
        · exact hle z hz

/-- A sorted tail of large elements is not touched. -/
theorem carry_append {x : α} {xs ys : List α} (hys : ys.Pairwise fun a b => key a ≤ key b)
    (hle : ∀ a ∈ x :: xs, ∀ b ∈ ys, key a ≤ key b) :
    carry key x (xs ++ ys) = carry key x xs ++ ys := by
  induction xs generalizing x with
  | nil =>
      induction ys generalizing x with
      | nil => rfl
      | cons y ys ih =>
          have hxy : key x ≤ key y := hle x (List.mem_cons_self ..) y (List.mem_cons_self ..)
          rw [List.pairwise_cons] at hys
          have hrest := ih (x := y) hys.2 fun a ha b hb => by
            rw [List.mem_singleton.mp ha]
            exact hys.1 b hb
          change carry key x (y :: ys) = x :: y :: ys
          rw [carry, if_neg (not_lt.mpr hxy)]
          exact congrArg (x :: ·) hrest
  | cons z zs ih =>
      rw [List.cons_append, carry, carry]
      split_ifs
      · rw [ih (x := x) fun a ha => hle a (by grind), List.cons_append]
      · rw [ih (x := z) fun a ha => hle a (by grind), List.cons_append]

/-- The last `n` elements are sorted and none of the others is larger. -/
def SortedFrom (n : ℕ) (l : List α) : Prop :=
  ∃ xs ys, l = xs ++ ys ∧ ys.length = n ∧ ys.Pairwise (fun a b => key a ≤ key b) ∧
    ∀ a ∈ xs, ∀ b ∈ ys, key a ≤ key b

/-- **One more pass, one more element in place.** -/
theorem pass_sortedFrom {n : ℕ} {l : List α} (h : SortedFrom key n l) (hn : n < l.length) :
    SortedFrom key (n + 1) (pass key l) := by
  obtain ⟨xs, ys, rfl, hlen, hys, hle⟩ := h
  cases xs with
  | nil => rw [List.nil_append, hlen] at hn; omega
  | cons x xs =>
      obtain ⟨zs, m, hzs, hm⟩ := carry_last key x xs
      have hmem : ∀ z ∈ zs ++ [m], ∀ b ∈ ys, key z ≤ key b := fun z hz =>
        hle z ((carry_perm key x xs).mem_iff.mp (hzs ▸ hz))
      refine ⟨zs, m :: ys, ?_, by rw [List.length_cons, hlen], ?_, ?_⟩
      · rw [List.cons_append, pass, carry_append key hys hle, hzs, List.append_assoc]
        rfl
      · exact List.pairwise_cons.mpr
          ⟨hmem m (List.mem_append_right _ (List.mem_singleton_self m)), hys⟩
      · intro a ha b hb
        rcases List.mem_cons.mp hb with rfl | hb
        · exact hm a ha
        · exact hmem a (List.mem_append_left _ ha) b hb

/-! ## All passes -/

theorem iterate_perm (n : ℕ) (l : List α) : ((pass key)^[n] l).Perm l := by
  induction n with
  | zero => exact List.Perm.refl _
  | succ n ih =>
      rw [Function.iterate_succ_apply']
      exact (pass_perm key _).trans ih

/-- **Stability.** -/
theorem iterate_filter (k : κ) (n : ℕ) (l : List α) :
    ((pass key)^[n] l).filter (fun z => key z = k) = l.filter fun z => key z = k := by
  induction n with
  | zero => rfl
  | succ n ih => rw [Function.iterate_succ_apply', pass_filter, ih]

theorem iterate_sortedFrom (n : ℕ) (l : List α) (hn : n ≤ l.length) :
    SortedFrom key n ((pass key)^[n] l) := by
  induction n with
  | zero => exact ⟨l, [], (List.append_nil l).symm, rfl, List.Pairwise.nil, by simp⟩
  | succ n ih =>
      rw [Function.iterate_succ_apply']
      exact pass_sortedFrom key (ih (by omega)) (by rw [(iterate_perm key n l).length_eq]; omega)

/-- **As many passes as elements sort.** -/
theorem iterate_sorted (l : List α) :
    ((pass key)^[l.length] l).Pairwise fun a b => key a ≤ key b := by
  obtain ⟨xs, ys, hl, hlen, hys, -⟩ := iterate_sortedFrom key l.length l le_rfl
  have hxs : xs = [] := by
    have hsum := congrArg List.length hl
    rw [(iterate_perm key _ l).length_eq, List.length_append, hlen] at hsum
    exact List.length_eq_zero_iff.mp (by omega)
  rw [hl, hxs, List.nil_append]
  exact hys

end Bubble
