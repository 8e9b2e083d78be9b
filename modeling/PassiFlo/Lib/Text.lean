import Mathlib

/-!
# Text

The operations of a scripting language on text, on lists of characters: splitting at a
separator or at white space, replacing and stripping. Joining is `List.intercalate`, and
`a in b` is `a <:+: b`.

A text splits into the parts it was joined from when no occurrence of the separator
starts inside a part. That is more than no occurrence in the part: one that starts in a
part may end in the separator after it.

Nothing here mentions a particular program.
-/

namespace Text

section Split

variable {α : Type*}

/-- No occurrence of `sep` starts inside the text when `sep` follows it. -/
def Clean (sep : List α) : List α → Prop
  | [] => True
  | c :: p => ¬ sep <+: c :: p ++ sep ∧ Clean sep p

/-- What may follow a clean text: the separator, or a part of it at the very end. -/
def Follows (sep r : List α) : Prop := r <+: sep ∨ sep <+: r

variable {sep p r s : List α}

theorem Follows.prefix_sep (hr : Follows sep r) (h : sep <+: p ++ r) : sep <+: p ++ sep := by
  rcases hr with hr | ⟨s, rfl⟩
  · exact h.trans ((List.prefix_append_right_inj p).mpr hr)
  · have hlen : sep.length ≤ (p ++ sep).length := by simp
    rw [← List.append_assoc] at h
    exact List.prefix_of_prefix_length_le h (List.prefix_append _ s) hlen

/-- A text that misses the first item of the separator is clean. -/
theorem clean_of_not_mem {c : α} (hp : c ∉ p) : Clean (c :: s) p := by
  induction p with
  | nil => trivial
  | cons d p ih =>
      have hd : c ≠ d := List.ne_of_not_mem_cons hp
      exact ⟨fun h => hd (List.cons_prefix_cons.mp h).1, ih (List.not_mem_of_not_mem_cons hp)⟩

/-- A doubled item does not occur where its occurrences are kept apart. -/
theorem clean_pair_append {c d : α} (hp : c ∉ p) (hd : d ≠ c) (hs : Clean [c, c] (d :: s)) :
    Clean [c, c] (p ++ c :: d :: s) := by
  induction p with
  | nil =>
      refine ⟨fun h => ?_, hs⟩
      exact hd (List.cons_prefix_cons.mp (List.cons_prefix_cons.mp h).2).1.symm
  | cons e p ih =>
      have he : c ≠ e := List.ne_of_not_mem_cons hp
      exact ⟨fun h => he (List.cons_prefix_cons.mp h).1, ih (List.not_mem_of_not_mem_cons hp)⟩

/-- Lines that are not empty, one under the other, hold no empty line. -/
theorem clean_pair_intercalate {c : α} {lines : List (List α)}
    (hlines : ∀ line ∈ lines, line ≠ [] ∧ c ∉ line) : Clean [c, c] ([c].intercalate lines) := by
  induction lines with
  | nil => trivial
  | cons line lines ih =>
      obtain ⟨hne, hline⟩ := hlines line (List.mem_cons_self ..)
      have hrest := ih fun l hl => hlines l (List.mem_cons_of_mem _ hl)
      cases lines with
      | nil => simpa using clean_of_not_mem hline
      | cons next lines =>
          obtain ⟨hnext, hclean⟩ := hlines next (by simp)
          obtain ⟨d, next', rfl⟩ := List.exists_cons_of_ne_nil hnext
          have hd : d ≠ c := (List.ne_of_not_mem_cons hclean).symm
          rw [List.intercalate_cons_cons, List.append_assoc]
          rw [List.intercalate_cons_cons_left] at hrest ⊢
          exact clean_pair_append hline hd hrest

theorem head?_intercalate {parts : List (List α)} (hp : p ≠ []) :
    (sep.intercalate (p :: parts)).head? = p.head? := by
  cases parts with
  | nil => rw [List.intercalate_singleton]
  | cons q parts =>
      rw [List.intercalate_cons_cons, List.append_assoc, List.head?_append_of_ne_nil p hp]

theorem getLast?_intercalate {parts : List (List α)} (hp : p ≠ []) :
    (sep.intercalate (parts ++ [p])).getLast? = p.getLast? := by
  induction parts with
  | nil => simp
  | cons q parts ih =>
      have hlast : ∃ c, p.getLast? = some c := ⟨_, List.getLast?_eq_some_getLast hp⟩
      obtain ⟨c, hc⟩ := hlast
      rw [hc] at ih ⊢
      rw [List.cons_append, List.intercalate_cons_of_ne_nil (by simp), List.getLast?_append, ih]
      rfl

/-- Parts that each end in the separator, and one more part, are joined by it. -/
theorem flatMap_append_eq_intercalate (parts : List (List α)) (s : List α) :
    parts.flatMap (· ++ sep) ++ s = sep.intercalate (parts ++ [s]) := by
  induction parts with
  | nil => simp
  | cons p parts ih =>
      rw [List.flatMap_cons, List.append_assoc, ih, List.cons_append,
        List.intercalate_cons_of_ne_nil (by simp)]

theorem flatMap_append_sep {parts : List (List α)} (hne : parts ≠ []) :
    parts.flatMap (· ++ sep) = sep.intercalate parts ++ sep := by
  obtain ⟨init, last, rfl⟩ := (List.eq_nil_or_concat parts).resolve_left hne
  rw [List.concat_eq_append, List.flatMap_append, ← flatMap_append_eq_intercalate]
  simp

/-- What comes before the first part belongs to it. -/
theorem append_intercalate (l p : List α) (parts : List (List α)) :
    l ++ sep.intercalate (p :: parts) = sep.intercalate ((l ++ p) :: parts) := by
  cases parts with
  | nil => simp
  | cons q parts => simp [List.intercalate_cons_cons]

/-- What follows the last part belongs to it. -/
theorem intercalate_append (parts : List (List α)) (s r : List α) :
    sep.intercalate (parts ++ [s]) ++ r = sep.intercalate (parts ++ [s ++ r]) := by
  rw [← flatMap_append_eq_intercalate, ← flatMap_append_eq_intercalate, List.append_assoc]

/-- Every part is read where each of them is. -/
theorem mapM_eq_map {β : Type*} {l : List α} {f : α → Option β} {g : α → β}
    (h : ∀ x ∈ l, f x = some (g x)) : l.mapM f = some (l.map g) := by
  induction l with
  | nil => rfl
  | cons x l ih =>
      rw [List.mapM_cons, h x (List.mem_cons_self ..),
        ih fun y hy => h y (List.mem_cons_of_mem x hy)]
      rfl

variable [DecidableEq α]

/-- Splits from the left; the first `skip` items end an occurrence already seen. -/
def splitFrom (sep : List α) : ℕ → List α → List (List α)
  | _, [] => [[]]
  | skip + 1, _ :: s => splitFrom sep skip s
  | 0, c :: s =>
      if sep <+: c :: s then [] :: splitFrom sep (sep.length - 1) s
      else (splitFrom sep 0 s).modifyHead (c :: ·)

/-- `s.split(sep)`, for a separator that is not empty. -/
def split (sep s : List α) : List (List α) := splitFrom sep 0 s

@[simp] theorem split_nil : split sep [] = [[]] := by
  unfold split splitFrom
  rfl

theorem splitFrom_ne_nil (sep : List α) (skip : ℕ) (s : List α) : splitFrom sep skip s ≠ [] := by
  induction s generalizing skip with
  | nil => simp [splitFrom]
  | cons c s ih =>
      cases skip with
      | succ skip => exact ih skip
      | zero =>
          rw [splitFrom]
          split
          · exact List.cons_ne_nil _ _
          · simpa using ih 0

theorem split_ne_nil : split sep s ≠ [] := splitFrom_ne_nil sep 0 s

theorem splitFrom_skip (p s : List α) : splitFrom sep p.length (p ++ s) = splitFrom sep 0 s := by
  induction p with
  | nil => rfl
  | cons c p ih => exact ih

/-- A separator at the front closes an empty part. -/
theorem split_sep_append (hsep : sep ≠ []) : split sep (sep ++ s) = [] :: split sep s := by
  obtain ⟨c, sep', rfl⟩ := List.exists_cons_of_ne_nil hsep
  have hpre : c :: sep' <+: c :: (sep' ++ s) := List.prefix_append (c :: sep') s
  unfold split
  rw [List.cons_append, splitFrom, if_pos hpre]
  exact congrArg _ (splitFrom_skip sep' s)

/-- A clean text is part of the first part. -/
theorem split_clean_append (hp : Clean sep p) (hr : Follows sep r) :
    split sep (p ++ r) = (split sep r).modifyHead (p ++ ·) := by
  induction p with
  | nil => exact (congrFun List.modifyHead_id _).symm
  | cons c p ih =>
      obtain ⟨hc, hp⟩ := hp
      have hno : ¬ sep <+: c :: (p ++ r) := fun h => hc (hr.prefix_sep (p := c :: p) h)
      have hrest : splitFrom sep 0 (p ++ r) = (split sep r).modifyHead (p ++ ·) := ih hp
      unfold split at hrest ⊢
      rw [List.cons_append, splitFrom, if_neg hno, hrest, List.modifyHead_modifyHead]
      rfl

/-- A text that misses the first item of the separator is part of the first part. -/
theorem split_append_of_not_mem {c : α} (hp : c ∉ p) (r : List α) :
    split (c :: s) (p ++ r) = (split (c :: s) r).modifyHead (p ++ ·) := by
  induction p with
  | nil => exact (congrFun List.modifyHead_id _).symm
  | cons d p ih =>
      have hd : c ≠ d := List.ne_of_not_mem_cons hp
      have hno : ¬ c :: s <+: d :: (p ++ r) := fun h => hd (List.cons_prefix_cons.mp h).1
      have hrest := ih (List.not_mem_of_not_mem_cons hp)
      unfold split at hrest ⊢
      rw [List.cons_append, splitFrom, if_neg hno, hrest, List.modifyHead_modifyHead]
      rfl

/-- A clean text before a separator is the first part. -/
theorem split_append (hsep : sep ≠ []) (hp : Clean sep p) :
    split sep (p ++ (sep ++ s)) = p :: split sep s := by
  rw [split_clean_append hp (Or.inr (List.prefix_append sep s)), split_sep_append hsep]
  simp

theorem split_short (hr : r.length < sep.length) : split sep r = [r] := by
  induction r with
  | nil => exact split_nil
  | cons c r ih =>
      have hno : ¬ sep <+: c :: r := fun h => absurd h.length_le (Nat.not_le.mpr hr)
      have hrest : splitFrom sep 0 r = [r] := ih (Nat.lt_of_succ_lt hr)
      unfold split
      rw [splitFrom, if_neg hno, hrest]
      rfl

/-- A clean text is one part, also with the beginning of a separator after it. -/
theorem split_clean_tail (hp : Clean sep p) (hr : r <+: sep) (hlen : r.length < sep.length) :
    split sep (p ++ r) = [p ++ r] := by
  rw [split_clean_append hp (Or.inl hr), split_short hlen]
  rfl

theorem split_clean (hsep : sep ≠ []) (hp : Clean sep p) : split sep p = [p] := by
  have h := split_clean_tail hp List.nil_prefix (List.length_pos_iff.mpr hsep)
  rwa [List.append_nil] at h

/-- The parts are parts of the text. -/
theorem mem_of_mem_splitFrom {c : α} {skip : ℕ} (hp : p ∈ splitFrom sep skip s) (hc : c ∈ p) :
    c ∈ s := by
  induction s generalizing skip p with
  | nil =>
      rw [splitFrom, List.mem_singleton] at hp
      rwa [hp] at hc
  | cons d s ih =>
      cases skip with
      | succ skip => exact List.mem_cons_of_mem d (ih hp hc)
      | zero =>
          rw [splitFrom] at hp
          split at hp
          · rcases List.mem_cons.mp hp with rfl | hp
            · exact absurd hc List.not_mem_nil
            · exact List.mem_cons_of_mem d (ih hp hc)
          · obtain ⟨x, rest, hx⟩ := List.exists_cons_of_ne_nil (splitFrom_ne_nil sep 0 s)
            rw [hx, List.modifyHead_cons, List.mem_cons] at hp
            rcases hp with rfl | hp
            · rcases List.mem_cons.mp hc with rfl | hc
              · exact List.mem_cons_self ..
              · exact List.mem_cons_of_mem d (ih (hx ▸ List.mem_cons_self ..) hc)
            · exact List.mem_cons_of_mem d (ih (hx ▸ List.mem_cons_of_mem x hp) hc)

theorem split_of_not_mem {c : α} (hp : c ∉ p) : split [c] p = [p] :=
  split_clean (List.cons_ne_nil _ _) (clean_of_not_mem hp)

theorem split_cons_append {c : α} (hp : c ∉ p) : split [c] (p ++ c :: s) = p :: split [c] s :=
  split_append (List.cons_ne_nil _ _) (clean_of_not_mem hp)

/-- Two texts on the sides of a separator neither of them can begin. -/
theorem split_pair {c : α} {t : List α} (hs : c ∉ s) (ht : c ∉ t) (sep : List α) :
    split (c :: sep) (s ++ (c :: sep ++ t)) = [s, t] := by
  rw [split_append (List.cons_ne_nil _ _) (clean_of_not_mem hs),
    split_clean (List.cons_ne_nil _ _) (clean_of_not_mem ht)]

/-- The parts of a joined text are split off one by one, whatever the last part is. -/
theorem split_intercalate_append (hsep : sep ≠ []) {parts : List (List α)}
    (hparts : ∀ p ∈ parts, Clean sep p) :
    split sep (sep.intercalate (parts ++ [s])) = parts ++ split sep s := by
  induction parts with
  | nil => simp
  | cons p parts ih =>
      have hrest := ih fun q hq => hparts q (List.mem_cons_of_mem _ hq)
      rw [List.cons_append, List.intercalate_cons_of_ne_nil (by simp), List.append_assoc,
        split_append hsep (hparts p (List.mem_cons_self ..)), hrest, List.cons_append]

/-- **A joined text splits into its parts.** The last part need not be clean. -/
theorem split_intercalate (hsep : sep ≠ []) {parts : List (List α)}
    (hparts : ∀ p ∈ parts, Clean sep p) (hs : split sep s = [s]) :
    split sep (sep.intercalate (parts ++ [s])) = parts ++ [s] := by
  rw [split_intercalate_append hsep hparts, hs]

/-- Lines come back one by one. -/
theorem split_lines {c : α} {lines : List (List α)} (hne : lines ≠ [])
    (hlines : ∀ line ∈ lines, c ∉ line) : split [c] ([c].intercalate lines) = lines := by
  obtain ⟨init, last, rfl⟩ := (List.eq_nil_or_concat lines).resolve_left hne
  rw [List.concat_eq_append] at hlines ⊢
  have hinit : ∀ p ∈ init, Clean [c] p := fun p hp =>
    clean_of_not_mem (hlines p (List.mem_append_left _ hp))
  exact split_intercalate (List.cons_ne_nil _ _) hinit (split_of_not_mem (hlines last (by simp)))

end Split

section Replace

variable {α : Type*}

theorem prefix_append_cons {c : α} {l s t : List α} (hl : c ∉ l) (h : l <+: s ++ c :: t) :
    l <+: s := by
  rcases List.prefix_or_prefix_of_prefix h (List.prefix_append s _) with h' | ⟨q, rfl⟩
  · exact h'
  · cases q with
    | nil => simp
    | cons d q =>
        have hd : d = c := (List.cons_prefix_cons.mp ((List.prefix_append_right_inj s).mp h)).1
        exact absurd (by simp [hd]) hl

/-- An occurrence that starts in `p` lies in it when something foreign comes after `p`. -/
theorem clean_concat {c : α} {old p : List α} (hold : c ∉ old) (hp : ¬ old <:+: p) :
    Clean old (p ++ [c]) := by
  have hnil : ∀ s, ¬ old <+: c :: s := fun s h =>
    hp ((prefix_append_cons (s := []) hold h).isInfix.trans List.nil_infix)
  induction p with
  | nil => exact ⟨hnil _, trivial⟩
  | cons d p ih =>
      refine ⟨fun h => hp ?_, ih fun h => hp (h.trans (List.suffix_cons d p).isInfix)⟩
      have hcons : old <+: d :: p ++ c :: old := by simpa using h
      exact (prefix_append_cons hold hcons).isInfix

/-- A text that misses the item between two texts occurs in one of them. -/
theorem infix_append_cons_iff {c : α} {l s t : List α} (hl : c ∉ l) :
    l <:+: s ++ c :: t ↔ l <:+: s ∨ l <:+: t := by
  constructor
  · intro hinfix
    obtain ⟨u, v, h⟩ := hinfix
    rw [List.append_assoc] at h
    rcases List.append_eq_append_iff.mp h with ⟨a, ha, hb⟩ | ⟨a, ha, hb⟩
    · rcases List.append_eq_append_iff.mp hb with ⟨b, hb, hc⟩ | ⟨b, hb, hc⟩
      · exact Or.inl ⟨u, b, by rw [ha, hb, List.append_assoc]⟩
      · cases b with
        | nil => exact Or.inl ⟨u, [], by rw [ha, hb]; simp⟩
        | cons d b =>
            have hd : c = d := (List.cons.inj hc).1
            exact absurd (by rw [hb, hd]; simp) hl
    · cases a with
      | nil =>
          have hne := hb
          cases l with
          | nil => exact Or.inr List.nil_infix
          | cons d l => exact absurd (by rw [(List.cons.inj hb).1]; simp) hl
      | cons d a =>
          have ht : t = a ++ (l ++ v) := (List.cons.inj hb).2
          exact Or.inr ⟨a, v, by rw [ht, List.append_assoc]⟩
  · intro hside
    rcases hside with h | h
    · exact h.trans (List.prefix_append s _).isInfix
    · exact h.trans ((List.suffix_cons c t).trans (List.suffix_append s _)).isInfix

variable [DecidableEq α]

/-- `s.replace(old, new)`; an empty `old` stands before every item and at the end. -/
def replace (old new s : List α) : List α :=
  if old = [] then new ++ s.flatMap (fun c => c :: new) else new.intercalate (split old s)

theorem mem_of_mem_intercalate {α : Type*} {c : α} {sep : List α} {parts : List (List α)}
    (h : c ∈ sep.intercalate parts) : c ∈ sep ∨ ∃ p ∈ parts, c ∈ p := by
  induction parts with
  | nil => exact absurd h List.not_mem_nil
  | cons p parts ih =>
      cases parts with
      | nil =>
          rw [List.intercalate_singleton] at h
          exact Or.inr ⟨p, List.mem_cons_self .., h⟩
      | cons q parts =>
          rw [List.intercalate_cons_cons, List.append_assoc] at h
          rcases List.mem_append.mp h with h | h
          · exact Or.inr ⟨p, List.mem_cons_self .., h⟩
          · rcases List.mem_append.mp h with h | h
            · exact Or.inl h
            · obtain h | ⟨r, hr, hc⟩ := ih h
              · exact Or.inl h
              · exact Or.inr ⟨r, List.mem_cons_of_mem p hr, hc⟩

theorem not_mem_intercalate {α : Type*} {c : α} {sep : List α} {parts : List (List α)}
    (hsep : c ∉ sep) (hparts : ∀ p ∈ parts, c ∉ p) : c ∉ sep.intercalate parts := by
  intro h
  obtain h | ⟨p, hp, hc⟩ := mem_of_mem_intercalate h
  · exact hsep h
  · exact hparts p hp hc

/-- Nothing is in the result that was in neither text. -/
theorem mem_of_mem_replace {c : α} {old new s : List α} (hold : old ≠ [])
    (h : c ∈ replace old new s) : c ∈ new ∨ c ∈ s := by
  unfold replace at h
  rw [if_neg hold] at h
  obtain h | ⟨p, hp, hc⟩ := mem_of_mem_intercalate h
  · exact Or.inl h
  · exact Or.inr (mem_of_mem_splitFrom hp hc)

/-- The first occurrence. -/
theorem exists_clean_of_infix {old s : List α} (h : old <:+: s) :
    ∃ p t, s = p ++ (old ++ t) ∧ Clean old p := by
  induction s with
  | nil =>
      obtain rfl := List.infix_nil.mp h
      exact ⟨[], [], rfl, trivial⟩
  | cons c s ih =>
      by_cases hpre : old <+: c :: s
      · obtain ⟨t, ht⟩ := hpre
        exact ⟨[], t, ht.symm, trivial⟩
      · obtain ⟨p, t, rfl, hp⟩ := ih ((List.infix_cons_iff.mp h).resolve_left hpre)
        refine ⟨c :: p, t, rfl, fun hc => hpre ?_, hp⟩
        have hc : old <+: c :: p ++ old ++ t := hc.trans (List.prefix_append _ t)
        rwa [List.append_assoc] at hc

/-- What is before the first occurrence stays, and the rest is replaced. -/
theorem replace_append {old new p s : List α} (hold : old ≠ []) (hp : Clean old p) :
    replace old new (p ++ (old ++ s)) = p ++ (new ++ replace old new s) := by
  unfold replace
  rw [if_neg hold, if_neg hold, split_append hold hp,
    List.intercalate_cons_of_ne_nil split_ne_nil, List.append_assoc]

theorem replace_clean {old new p : List α} (hold : old ≠ []) (hp : Clean old p) :
    replace old new p = p := by
  unfold replace
  rw [if_neg hold, split_clean hold hp, List.intercalate_singleton]

end Replace

/-! ## White space -/

/-- The code points that `str.split` and `str.strip` take as white space. -/
def spaces : List ℕ :=
  [0x9, 0xa, 0xb, 0xc, 0xd, 0x1c, 0x1d, 0x1e, 0x1f, 0x20, 0x85, 0xa0, 0x1680, 0x2000, 0x2001,
    0x2002, 0x2003, 0x2004, 0x2005, 0x2006, 0x2007, 0x2008, 0x2009, 0x200a, 0x2028, 0x2029,
    0x202f, 0x205f, 0x3000]

def isSpace (c : Char) : Bool := spaces.contains c.toNat

/-- `s.split()`: the words between white space. -/
def words (s : List Char) : List (List Char) := (s.splitOnP isSpace).filter (!·.isEmpty)

/-- `s.strip()`. -/
def strip (s : List Char) : List Char := (s.dropWhile isSpace).rdropWhile isSpace

theorem words_append_space {c : Char} (hc : isSpace c = true) (s t : List Char) :
    words (s ++ c :: t) = words s ++ words t := by
  unfold words
  rw [List.splitOnP_append_cons s t hc, List.filter_append]

/-- A text without white space is one word. -/
theorem words_singleton {s : List Char} (hs : ∀ c ∈ s, isSpace c = false) (hne : s ≠ []) :
    words s = [s] := by
  unfold words
  rw [List.splitOnP_eq_singleton hs]
  simp [hne]

/-- White space at the front is skipped. -/
theorem words_space_append {s : List Char} (hs : ∀ c ∈ s, isSpace c = true) (t : List Char) :
    words (s ++ t) = words t := by
  induction s with
  | nil => rfl
  | cons c s ih =>
      have hc := words_append_space (hs c (List.mem_cons_self ..)) [] (s ++ t)
      rw [ih fun d hd => hs d (List.mem_cons_of_mem _ hd)] at hc
      exact hc

/-- Two texts without white space and white space between them are two words. -/
theorem words_pair {s ws t : List Char} (hs : ∀ c ∈ s, isSpace c = false) (hsne : s ≠ [])
    (hws : ∀ c ∈ ws, isSpace c = true) (hwsne : ws ≠ []) (ht : ∀ c ∈ t, isSpace c = false)
    (htne : t ≠ []) : words (s ++ (ws ++ t)) = [s, t] := by
  obtain ⟨c, ws, rfl⟩ := List.exists_cons_of_ne_nil hwsne
  have hspace := words_space_append (fun d hd => hws d (List.mem_cons_of_mem _ hd)) t
  rw [List.cons_append, words_append_space (hws c (List.mem_cons_self ..)), hspace,
    words_singleton hs hsne, words_singleton ht htne]
  rfl

theorem dropWhile_append_of_head {s t : List Char} (hs : ∀ c ∈ s, isSpace c = true)
    (ht : ∀ c ∈ t.head?, isSpace c = false) : (s ++ t).dropWhile isSpace = t := by
  rw [List.dropWhile_append_of_pos hs]
  cases t with
  | nil => rfl
  | cons c t =>
      have hc : ¬ isSpace c = true := by simp [ht c (by simp)]
      exact List.dropWhile_cons_of_neg hc

/-- White space around a text that neither begins nor ends with it is stripped. -/
theorem strip_append {l s r : List Char} (hl : ∀ c ∈ l, isSpace c = true)
    (hhead : ∀ c ∈ s.head?, isSpace c = false) (hlast : ∀ c ∈ s.getLast?, isSpace c = false)
    (hne : s ≠ []) (hr : ∀ c ∈ r, isSpace c = true) : strip (l ++ (s ++ r)) = s := by
  have hfront : (l ++ (s ++ r)).dropWhile isSpace = s ++ r := by
    refine dropWhile_append_of_head hl fun c hc => hhead c ?_
    rwa [List.head?_append_of_ne_nil s hne] at hc
  have hback : (r.reverse ++ s.reverse).dropWhile isSpace = s.reverse := by
    refine dropWhile_append_of_head (fun c hc => hr c (List.mem_reverse.mp hc)) fun c hc => ?_
    rw [List.head?_reverse] at hc
    exact hlast c hc
  rw [strip, hfront, List.rdropWhile, List.reverse_append, hback, List.reverse_reverse]

theorem strip_spaces {s : List Char} (hs : ∀ c ∈ s, isSpace c = true) : strip s = [] := by
  have hdrop : s.dropWhile isSpace = [] := List.dropWhile_eq_nil_iff.mpr hs
  rw [strip, hdrop, List.rdropWhile_nil]

/-- A word with white space around it. -/
theorem strip_spaced {l s r : List Char} (hl : ∀ c ∈ l, isSpace c = true)
    (hs : ∀ c ∈ s, isSpace c = false) (hr : ∀ c ∈ r, isSpace c = true) :
    strip (l ++ (s ++ r)) = s := by
  by_cases hne : s = []
  · rw [hne]
    refine strip_spaces fun c hc => ?_
    rcases List.mem_append.mp hc with hc | hc
    · exact hl c hc
    · exact hr c hc
  · exact strip_append hl (fun c hc => hs c (List.mem_of_mem_head? hc))
      (fun c hc => hs c (List.mem_of_getLast? hc)) hne hr

/-- Lines that end in no white space, with white space around all of them. -/
theorem strip_lines {l sep first r : List Char} {rest : List (List Char)}
    (hl : ∀ c ∈ l, isSpace c = true) (hhead : ∀ c ∈ first.head?, isSpace c = false)
    (hlines : ∀ line ∈ first :: rest, line ≠ [] ∧ ∀ c ∈ line.getLast?, isSpace c = false)
    (hr : ∀ c ∈ r, isSpace c = true) :
    strip (l ++ (sep.intercalate (first :: rest) ++ r)) = sep.intercalate (first :: rest) := by
  obtain ⟨hfne, -⟩ := hlines first (List.mem_cons_self ..)
  have hfront : (sep.intercalate (first :: rest)).head? = first.head? := head?_intercalate hfne
  refine strip_append hl (by rwa [hfront]) ?_ ?_ hr
  · obtain ⟨init, last, hlast⟩ :=
      (List.eq_nil_or_concat (first :: rest)).resolve_left (List.cons_ne_nil _ _)
    rw [List.concat_eq_append] at hlast
    obtain ⟨hlne, hback⟩ := hlines last (by simp [hlast])
    rwa [hlast, getLast?_intercalate hlne]
  · intro hnil
    rw [hnil] at hfront
    exact hfne (List.head?_eq_none_iff.mp hfront.symm)

theorem strip_word {s r : List Char} (hs : ∀ c ∈ s, isSpace c = false)
    (hr : ∀ c ∈ r, isSpace c = true) : strip (s ++ r) = s :=
  strip_spaced (l := []) (fun _ hc => absurd hc List.not_mem_nil) hs hr

theorem strip_space_append {l s : List Char} (hl : ∀ c ∈ l, isSpace c = true)
    (hs : ∀ c ∈ s, isSpace c = false) : strip (l ++ s) = s := by
  have h := strip_spaced (r := []) hl hs (fun _ hc => absurd hc List.not_mem_nil)
  rwa [List.append_nil] at h

end Text
