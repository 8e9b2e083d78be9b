import Mathlib

/-!
# Positions in an ordered list

In a list that is in ascending order of some key, what lies below a key is a beginning of
the list and what lies above it an end. A position can therefore be given as a number of
elements below a key, and a list that is cut at the positions of its keys falls into the
groups of equal keys.

Nothing here mentions a particular program.
-/

namespace Sorted

variable {α κ : Type*} [LinearOrder κ] {key : α → κ} {l : List α}

/-- The list is in ascending order of the key. -/
def Ascending (key : α → κ) (l : List α) : Prop := l.Pairwise fun x y => key x ≤ key y

/-- The position of a key: how many elements lie below it. -/
def position (key : α → κ) (k : κ) (l : List α) : ℕ := l.countP fun x => key x < k

/-- What lies below a key comes first. -/
theorem filter_append_filter (hl : Ascending key l) (k : κ) :
    (l.filter fun x => key x < k) ++ (l.filter fun x => k ≤ key x) = l := by
  induction l with
  | nil => rfl
  | cons x l ih =>
      obtain ⟨hx, hl⟩ := List.pairwise_cons.mp hl
      by_cases hk : key x < k
      · rw [List.filter_cons_of_pos (by simpa using hk),
          List.filter_cons_of_neg (by simpa using hk), List.cons_append, ih hl]
      · have hall : ∀ y ∈ x :: l, k ≤ key y := by
          intro y hy
          rcases List.mem_cons.mp hy with rfl | hy
          · exact not_lt.mp hk
          · exact (not_lt.mp hk).trans (hx y hy)
        have hlow : (x :: l).filter (fun y => key y < k) = [] :=
          List.filter_eq_nil_iff.mpr fun y hy => by simpa using hall y hy
        have hhigh : (x :: l).filter (fun y => k ≤ key y) = x :: l :=
          List.filter_eq_self.mpr fun y hy => by simpa using hall y hy
        rw [hlow, hhigh, List.nil_append]

theorem take_position (hl : Ascending key l) (k : κ) :
    l.take (position key k l) = l.filter fun x => key x < k := by
  have hlen : position key k l = (l.filter fun x => key x < k).length :=
    List.countP_eq_length_filter
  conv_lhs => rw [hlen, ← filter_append_filter hl k]
  exact List.take_left' (by rw [filter_append_filter hl k])

theorem drop_position (hl : Ascending key l) (k : κ) :
    l.drop (position key k l) = l.filter fun x => k ≤ key x := by
  have hlen : position key k l = (l.filter fun x => key x < k).length :=
    List.countP_eq_length_filter
  conv_lhs => rw [hlen, ← filter_append_filter hl k]
  exact List.drop_left' (by rw [filter_append_filter hl k])

/-- The position of a key beyond the position of a lower one. -/
theorem position_add (hl : Ascending key l) {k k' : κ} (h : k ≤ k') :
    position key k l + position key k' (l.drop (position key k l)) = position key k' l := by
  have hlow : position key k' (l.take (position key k l)) = position key k l := by
    rw [take_position hl]
    unfold position
    rw [List.countP_filter]
    refine List.countP_congr ?_
    intro x _
    have hboth : key x < k' ∧ key x < k ↔ key x < k :=
      and_iff_right_of_imp fun hx => hx.trans_le h
    simpa using hboth
  have hsplit : position key k' (l.take (position key k l) ++ l.drop (position key k l))
      = position key k' (l.take (position key k l)) + position key k' (l.drop (position key k l)) :=
    List.countP_append
  rw [List.take_append_drop, hlow] at hsplit
  exact hsplit.symm

/-- Between two positions lies what lies between the keys. -/
theorem drop_take_position (hl : Ascending key l) {k k' : κ} (h : k ≤ k') :
    (l.take (position key k' l)).drop (position key k l)
      = l.filter fun x => k ≤ key x ∧ key x < k' := by
  have hsame : position key k l = position key k (l.filter fun x => key x < k') := by
    unfold position
    rw [List.countP_filter]
    refine List.countP_congr ?_
    intro x _
    have hboth : key x < k ∧ key x < k' ↔ key x < k :=
      and_iff_left_of_imp fun hx => hx.trans_le h
    simpa using hboth.symm
  have hsorted : Ascending key (l.filter fun x => key x < k') := hl.sublist List.filter_sublist
  rw [take_position hl, hsame, drop_position hsorted, List.filter_filter]
  simp only [Bool.decide_and]

/-- The first element with a key is at the position of the key. -/
theorem findIdx?_position (hl : Ascending key l) {k : κ} (h : ∃ x ∈ l, key x = k) :
    l.findIdx? (fun x => key x = k) = some (position key k l) := by
  induction l with
  | nil =>
      obtain ⟨x, hx, -⟩ := h
      exact absurd hx List.not_mem_nil
  | cons x l ih =>
      obtain ⟨hx, hl⟩ := List.pairwise_cons.mp hl
      obtain ⟨y, hy, hk⟩ := h
      have hle : key x ≤ k := by
        rcases List.mem_cons.mp hy with rfl | hy
        · exact hk.le
        · exact hk ▸ hx y hy
      rw [List.findIdx?_cons]
      by_cases hhead : key x = k
      · have hzero : position key k (x :: l) = 0 := by
          refine List.countP_eq_zero.mpr ?_
          intro z hz
          rcases List.mem_cons.mp hz with rfl | hz
          · simpa using hhead.ge
          · simpa using hhead ▸ hx z hz
        rw [if_pos (by simpa using hhead), hzero]
      · have hmem : y ∈ l := by
          rcases List.mem_cons.mp hy with rfl | hy
          · exact absurd hk hhead
          · exact hy
        have hlt : key x < k := lt_of_le_of_ne hle hhead
        have hnext : position key k (x :: l) = position key k l + 1 :=
          List.countP_cons_of_pos (by simpa using hlt)
        rw [if_neg (by simpa using hhead), ih hl ⟨y, hmem, hk⟩, hnext]
        rfl

/-! ## Groups -/

/-- A list cut at some positions, from the first of them on. -/
def cuts (l : List α) : List ℕ → List (List α)
  | [] => []
  | [i] => [l.drop i]
  | i :: j :: is => (l.take j).drop i :: cuts l (j :: is)

/-- **Cut at the positions of its keys, an ordered list falls into its groups.** -/
theorem cuts_positions (hl : Ascending key l) (ks : List κ) :
    ∀ k, (k :: ks).Pairwise (· < ·) → (∀ x ∈ l, k ≤ key x → key x ∈ k :: ks) →
      cuts l ((k :: ks).map fun k => position key k l)
        = (k :: ks).map fun k => l.filter fun x => key x = k := by
  induction ks with
  | nil =>
      intro k _ hall
      have hlast : l.filter (fun x => k ≤ key x) = l.filter fun x => key x = k := by
        refine List.filter_congr ?_
        intro x hx
        have hiff : k ≤ key x ↔ key x = k :=
          ⟨fun h => List.mem_singleton.mp (hall x hx h), fun h => h.ge⟩
        exact decide_eq_decide.mpr hiff
      rw [List.map_singleton, cuts, drop_position hl, hlast]
      rfl
  | cons k' ks ih =>
      intro k hks hall
      obtain ⟨hk, hrest⟩ := List.pairwise_cons.mp hks
      obtain ⟨hk', -⟩ := List.pairwise_cons.mp hrest
      have hlt : k < k' := hk k' (List.mem_cons_self ..)
      have hgroup : l.filter (fun x => k ≤ key x ∧ key x < k') = l.filter fun x => key x = k := by
        refine List.filter_congr ?_
        intro x hx
        have hiff : k ≤ key x ∧ key x < k' ↔ key x = k := by
          constructor
          · intro h
            -- the keys of the list that are not `k` are `k'` or beyond
            rcases List.mem_cons.mp (hall x hx h.1) with heq | hmem
            · exact heq
            · rcases List.mem_cons.mp hmem with heq | hmem
              · exact absurd h.2 heq.not_lt
              · exact absurd h.2 (hk' _ hmem).not_gt
          · intro h
            exact ⟨h.ge, h.trans_lt hlt⟩
        exact decide_eq_decide.mpr hiff
      have hcover : ∀ x ∈ l, k' ≤ key x → key x ∈ k' :: ks := by
        intro x hx h
        rcases List.mem_cons.mp (hall x hx (hlt.le.trans h)) with heq | hmem
        · exact absurd (heq ▸ hlt) h.not_gt
        · exact hmem
      have htail := ih k' hrest hcover
      rw [List.map_cons] at htail
      rw [List.map_cons, List.map_cons, cuts, htail, drop_take_position hl hlt.le, hgroup]
      rfl

end Sorted
