import Mathlib

/-!
# The first of the cheapest

A scan that keeps the best candidate so far and replaces it only by a cheaper one ends
with the first of the cheapest usable candidates, or with none where none is usable.

Nothing here mentions a particular program.
-/

namespace FirstMin

variable {ι κ β : Type*} [LinearOrder κ] (usable : ι → Bool) (cost : ι → κ)

/-- The best so far, after one more candidate. -/
def better : Option ι → ι → Option ι
  | none, i => if usable i then some i else none
  | some b, i => if usable i && cost i < cost b then some i else some b

/-- The scan. -/
def search (l : List ι) : Option ι := l.foldl (better usable cost) none

/-- A cheapest usable candidate, and of these the lowest. -/
structure IsFirstMin [LinearOrder ι] (l : List ι) (i : ι) : Prop where
  mem : i ∈ l
  up : usable i = true
  least : ∀ j ∈ l, usable j = true → cost i ≤ cost j
  first : ∀ j ∈ l, usable j = true → j < i → cost i < cost j

section Order

variable {usable cost} [LinearOrder ι] {l : List ι} {i x : ι}

/-- A candidate that is not usable, or not cheaper, changes nothing. -/
theorem IsFirstMin.keep (h : IsFirstMin usable cost l i) (hlt : i < x)
    (hx : usable x = true → cost i ≤ cost x) : IsFirstMin usable cost (l ++ [x]) i where
  mem := List.mem_append_left _ h.mem
  up := h.up
  least := by
    intro j hj hju
    rcases List.mem_append.mp hj with hj | hj
    · exact h.least j hj hju
    · rw [List.mem_singleton.mp hj] at hju ⊢
      exact hx hju
  first := by
    intro j hj hju hji
    rcases List.mem_append.mp hj with hj | hj
    · exact h.first j hj hju hji
    · rw [List.mem_singleton.mp hj] at hji
      exact absurd (hji.trans hlt) (lt_irrefl x)

/-- A usable candidate cheaper than all before it takes over. -/
theorem IsFirstMin.replace (hx : usable x = true)
    (hall : ∀ j ∈ l, usable j = true → cost x < cost j) : IsFirstMin usable cost (l ++ [x]) x where
  mem := List.mem_append_right _ (List.mem_singleton_self x)
  up := hx
  least := by
    intro j hj hju
    rcases List.mem_append.mp hj with hj | hj
    · exact (hall j hj hju).le
    · rw [List.mem_singleton.mp hj]
  first := by
    intro j hj hju hjx
    rcases List.mem_append.mp hj with hj | hj
    · exact hall j hj hju
    · rw [List.mem_singleton.mp hj] at hjx
      exact absurd hjx (lt_irrefl x)

variable (usable cost)

/-- **The scan is right**, on candidates in ascending order. -/
theorem search_spec (l : List ι) (hl : l.Pairwise (· < ·)) :
    (search usable cost l = none ∧ ∀ i ∈ l, usable i = false) ∨
      ∃ i, search usable cost l = some i ∧ IsFirstMin usable cost l i := by
  induction l using List.reverseRecOn with
  | nil => exact .inl ⟨rfl, fun i hi => absurd hi List.not_mem_nil⟩
  | append_singleton l x ih =>
      rw [List.pairwise_append] at hl
      have hlt : ∀ j ∈ l, j < x := fun j hj => hl.2.2 j hj x (List.mem_singleton_self x)
      have hscan : search usable cost (l ++ [x]) = better usable cost (search usable cost l) x := by
        rw [search, List.foldl_append]
        rfl
      rw [hscan]
      rcases ih hl.1 with ⟨hnone, hall⟩ | ⟨i, hi, hmin⟩
      · rw [hnone, better]
        cases hx : usable x with
        | true =>
            exact .inr ⟨x, if_pos rfl, IsFirstMin.replace hx fun j hj hju =>
              absurd ((hall j hj).symm.trans hju) Bool.false_ne_true⟩
        | false =>
            refine .inl ⟨if_neg Bool.false_ne_true, fun j hj => ?_⟩
            rcases List.mem_append.mp hj with hj | hj
            · exact hall j hj
            · rwa [List.mem_singleton.mp hj]
      · rw [hi, better]
        by_cases hx : usable x = true ∧ cost x < cost i
        · refine .inr ⟨x, if_pos (by simpa using hx), IsFirstMin.replace hx.1 fun j hj hju => ?_⟩
          exact hx.2.trans_le (hmin.least j hj hju)
        · refine .inr ⟨i, if_neg (by simpa using hx), hmin.keep (hlt i hmin.mem) fun hxu => ?_⟩
          exact not_lt.mp fun hc => hx ⟨hxu, hc⟩

end Order

/-- A loop that keeps the best candidate in some other form computes the scan. -/
theorem foldlM_search {f : β → ι → Option β} (enc : Option ι → β) {l : List ι}
    (h : ∀ best, ∀ i ∈ l, f (enc best) i = some (enc (better usable cost best i))) :
    l.foldlM f (enc none) = some (enc (search usable cost l)) := by
  have hfold : ∀ (l : List ι) (best : Option ι),
      (∀ best, ∀ i ∈ l, f (enc best) i = some (enc (better usable cost best i))) →
        l.foldlM f (enc best) = some (enc (l.foldl (better usable cost) best)) := by
    intro l
    induction l with
    | nil => exact fun best _ => rfl
    | cons i l ih =>
        intro best h
        rw [List.foldlM_cons, h best i (List.mem_cons_self ..)]
        exact ih _ fun b j hj => h b j (List.mem_cons_of_mem i hj)
  exact hfold l none h

end FirstMin
