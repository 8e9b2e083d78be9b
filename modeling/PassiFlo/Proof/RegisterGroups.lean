import PassiFlo.Soft.RegisterGroups
import PassiFlo.Proof.RunLog
import PassiFlo.Lib.Sorted

/-!
# Whose runs a plot shows

In a file whose registers ascend, the first run of a register is at the position of the
register, and the slices between these positions are the runs of one register each. The
slices are in the order of the registers that occur, and a plot gets its label from the
place of its slice; so a label is right if no register before it is missing.
-/

namespace PassiFlo

namespace Soft

open Sorted Text

variable {α β δ : Type} {lines : List (List ℤ)}

/-! ## Files in order -/

/--
The clean run comes first, and the registers do not descend. Registers may be missing.
-/
structure InOrder (lines : List (List ℤ)) : Prop where
  register : ∀ line ∈ lines, ∃ k : ℕ, k ≤ 31 ∧ registerField line = some (k : ℤ)
  clean : ∃ line, lines.head? = some line ∧ registerField line = some 0
  ascending : lines.Pairwise fun x y => ∀ i ∈ registerField x, ∀ j ∈ registerField y, i ≤ j

/-- The register of a summary that has one. -/
def registerOf (summary : List ℤ) : ℕ := ((registerField summary).getD 0).toNat

theorem registerOf_eq {line : List ℤ} {k : ℕ} (h : registerField line = some (k : ℤ)) :
    registerOf line = k := by
  rw [registerOf, h]
  rfl

/-- Runs that are made in order are in order in the file. -/
theorem inOrder_map {f : β → List ℤ} {reg : β → ℕ}
    (hfield : ∀ x, registerField (f x) = some (reg x : ℤ)) {first : β} {rest : List β}
    (hclean : reg first = 0) (hascending : rest.Pairwise fun x y => reg x ≤ reg y)
    (hle : ∀ x ∈ rest, reg x ≤ 31) : InOrder ((first :: rest).map f) where
  register := by
    intro line hline
    obtain ⟨x, hx, rfl⟩ := List.mem_map.mp hline
    refine ⟨reg x, ?_, hfield x⟩
    rcases List.mem_cons.mp hx with rfl | hx
    · rw [hclean]
      exact Nat.zero_le 31
    · exact hle x hx
  clean := ⟨f first, rfl, by rw [hfield, hclean]; rfl⟩
  ascending := by
    have hregs : (first :: rest).Pairwise fun x y => reg x ≤ reg y := by
      refine List.pairwise_cons.mpr ⟨?_, hascending⟩
      intro x _
      rw [hclean]
      exact Nat.zero_le _
    refine List.pairwise_map.mpr (hregs.imp ?_)
    intro x y hxy i hi j hj
    rw [hfield] at hi hj
    obtain rfl := Option.some.inj hi
    obtain rfl := Option.some.inj hj
    exact Int.ofNat_le.mpr hxy

namespace InOrder

theorem field (h : InOrder lines) {line : List ℤ} (hline : line ∈ lines) :
    registerField line = some (registerOf line : ℤ) := by
  obtain ⟨k, -, hk⟩ := h.register line hline
  rw [hk, registerOf_eq hk]

theorem sorted (h : InOrder lines) : Ascending registerOf lines := by
  refine h.ascending.imp_of_mem ?_
  intro x y hx hy hle
  exact Int.ofNat_le.mp (hle _ (h.field hx) _ (h.field hy))

end InOrder

/-! ## The indices -/

/-- Some run is of the register. -/
def occurs (lines : List (List ℤ)) (k : ℕ) : Bool := lines.any fun line => registerOf line = k

theorem drop_zipIdx (l : List α) (n m : ℕ) :
    (l.zipIdx m).drop n = (l.drop n).zipIdx (m + n) := by
  induction n generalizing l m with
  | zero => rfl
  | succ n ih =>
      cases l with
      | nil => rfl
      | cons x l =>
          rw [List.zipIdx_cons, List.drop_succ_cons, List.drop_succ_cons, ih,
            Nat.add_right_comm, Nat.add_assoc]

/-- The inner loop is a search. -/
theorem firstLine_eq (i n : ℕ)
    (hfield : ∀ line ∈ lines, registerField line = some (registerOf line : ℤ)) :
    firstLine i (lines.zipIdx n)
      = some ((lines.findIdx? fun line => registerOf line = i).map (n + ·)) := by
  induction lines generalizing n with
  | nil => rfl
  | cons line lines ih =>
      have hrest := ih (n + 1) fun l hl => hfield l (List.mem_cons_of_mem line hl)
      rw [List.zipIdx_cons, firstLine, hfield line (List.mem_cons_self ..), Option.bind_eq_bind,
        Option.bind_some, List.findIdx?_cons]
      by_cases heq : registerOf line = i
      · rw [if_pos (congrArg Nat.cast heq.symm), if_pos (decide_eq_true heq)]
        rfl
      · have hne : ¬ (i : ℤ) = registerOf line := fun h => heq (Int.ofNat_inj.mp h).symm
        rw [if_neg hne, if_neg (by simpa using heq), hrest, Option.map_map]
        congr 2
        funext j
        exact Nat.add_right_comm n 1 j

/-- **One register.** Its index is its position, and the search goes on from there. -/
theorem indexStep_eq (h : InOrder lines) {k i : ℕ} (hk : k ≤ i) (indices : List ℕ) :
    indexStep lines.zipIdx (indices, position registerOf k lines) i =
      some (if occurs lines i then
          (indices ++ [position registerOf i lines], position registerOf i lines)
        else (indices, position registerOf k lines)) := by
  have hfield : ∀ line ∈ lines.drop (position registerOf k lines),
      registerField line = some (registerOf line : ℤ) :=
    fun line hline => h.field (List.mem_of_mem_drop hline)
  unfold indexStep
  rw [drop_zipIdx, Nat.zero_add, firstLine_eq i _ hfield]
  cases hocc : occurs lines i with
  | true =>
      obtain ⟨line, hline, hi⟩ := List.any_eq_true.mp hocc
      have hi : registerOf line = i := of_decide_eq_true hi
      have hrest : line ∈ lines.drop (position registerOf k lines) := by
        rw [drop_position h.sorted]
        exact List.mem_filter.mpr ⟨hline, decide_eq_true (hi ▸ hk)⟩
      have hsorted : Ascending registerOf (lines.drop (position registerOf k lines)) :=
        h.sorted.sublist (List.drop_sublist ..)
      rw [findIdx?_position hsorted ⟨line, hrest, hi⟩, Option.map_some, position_add h.sorted hk]
      rfl
  | false =>
      have hnone : (lines.drop (position registerOf k lines)).findIdx?
          (fun line => registerOf line = i) = none := by
        rw [List.findIdx?_eq_none_iff]
        intro line hline
        exact Bool.eq_false_iff.mpr (List.any_eq_false.mp hocc line (List.mem_of_mem_drop hline))
      rw [hnone]
      rfl

/-- **The indices** are the positions of the registers that occur. -/
theorem registerIndices_eq (h : InOrder lines) :
    registerIndices lines = some (((List.range 32).filter (occurs lines)).map
      fun k => position registerOf k lines) := by
  have hloop : ∀ n, ∃ k ≤ n, (List.range n).foldlM (indexStep lines.zipIdx) ([], 0) =
      some (((List.range n).filter (occurs lines)).map fun k => position registerOf k lines,
        position registerOf k lines) := by
    intro n
    induction n with
    | zero =>
        have hzero : position registerOf 0 lines = 0 := by
          refine List.countP_eq_zero.mpr ?_
          intro line _
          simp
        exact ⟨0, le_rfl, by rw [hzero]; rfl⟩
    | succ n ih =>
        obtain ⟨k, hk, hrun⟩ := ih
        rw [List.range_succ, List.foldlM_append, hrun, Option.bind_eq_bind, Option.bind_some,
          List.foldlM_cons, indexStep_eq h hk, List.filter_append, List.map_append]
        cases hocc : occurs lines n with
        | true =>
            refine ⟨n, Nat.le_succ n, ?_⟩
            rw [List.filter_cons_of_pos hocc]
            rfl
        | false =>
            refine ⟨k, hk.trans (Nat.le_succ n), ?_⟩
            rw [List.filter_cons_of_neg (by rw [hocc]; exact Bool.false_ne_true), List.filter_nil,
              List.map_nil, List.append_nil]
            rfl
  obtain ⟨k, -, hrun⟩ := hloop 32
  rw [registerIndices, hrun]
  rfl

/-! ## The slices -/

/-- From every index but the first to the next. -/
theorem indexSlices_cons (i : ℕ) (is : List ℕ) :
    indexSlices (i :: is) = some (is.zip is.tail) := by
  have hget : ∀ k ∈ List.range' 1 ((i :: is).length - 2),
      (do let first ← (i :: is)[k]?
          let last ← (i :: is)[k + 1]?
          some (first, last)) = some ((i :: is).getD k 0, (i :: is).getD (k + 1) 0) := by
    intro k hk
    obtain ⟨hle, hlt⟩ := List.mem_range'_1.mp hk
    rw [List.length_cons] at hlt
    have hfirst : k < (i :: is).length := by rw [List.length_cons]; omega
    have hlast : k + 1 < (i :: is).length := by rw [List.length_cons]; omega
    rw [List.getElem?_eq_getElem hfirst, List.getElem?_eq_getElem hlast,
      List.getD_eq_getElem _ 0 hfirst, List.getD_eq_getElem _ 0 hlast]
    rfl
  unfold indexSlices
  rw [mapM_eq_map hget]
  refine congrArg some (List.ext_getElem ?_ ?_)
  · simp only [List.length_map, List.length_range', List.length_cons, List.length_zip,
      List.length_tail]
    omega
  · intro n hn hn'
    rw [List.length_zip, List.length_tail] at hn'
    have hfirst : n < is.length := by omega
    have hlast : n + 1 < is.length := by omega
    rw [List.getElem_map, List.getElem_range', List.getElem_zip, List.getElem_tail, one_mul,
      Nat.add_comm 1 n, List.getD_cons_succ, List.getD_cons_succ,
      List.getD_eq_getElem is 0 hfirst, List.getD_eq_getElem is 0 hlast]

/-- The slices cut the list. -/
theorem slices_eq_cuts (l : List α) (j : ℕ) (is : List ℕ) :
    ((j :: is).zip is).map (slice l) ++ [l.drop ((j :: is).getLast (List.cons_ne_nil j is))]
      = cuts l (j :: is) := by
  induction is generalizing j with
  | nil => rfl
  | cons i is ih =>
      rw [List.zip_cons_cons, List.map_cons, List.cons_append,
        List.getLast_cons (List.cons_ne_nil i is), ih i]
      rfl

/-- The slices of a list, when a register has been found after the first. -/
theorem byRegister_cons (l : List α) (i j : ℕ) (is : List ℕ) :
    byRegister (i :: j :: is) l = some (cuts l (j :: is)) := by
  have hlast : (i :: j :: is).getLast? = some ((j :: is).getLast (List.cons_ne_nil j is)) := by
    rw [List.getLast?_eq_some_getLast (List.cons_ne_nil i _),
      List.getLast_cons (List.cons_ne_nil j is)]
  unfold byRegister
  rw [indexSlices_cons, hlast, ← slices_eq_cuts]
  rfl

theorem byRegister_map (indices : List ℕ) (f : α → β) (l : List α) :
    byRegister indices (l.map f) = (byRegister indices l).map (List.map (List.map f)) := by
  unfold byRegister
  cases indexSlices indices with
  | none => rfl
  | some slices =>
      cases indices.getLast? with
      | none => rfl
      | some last =>
          have hslice : slice (l.map f) = fun sl => (slice l sl).map f := by
            funext sl
            rw [slice, slice, ← List.map_take, ← List.map_drop]
          simp only [Option.bind_eq_bind, Option.bind_some, Option.map_some, hslice,
            List.map_append, List.map_map, Function.comp_def, List.map_drop, List.map_cons,
            List.map_nil]

/-! ## The groups -/

section Groups

variable {runs : List (List ℤ × δ)}

/-- The runs of a register, in order. -/
def ownRuns (k : ℕ) (runs : List (List ℤ × δ)) : List (List ℤ × δ) :=
  runs.filter fun run => registerField run.1 = some (k : ℤ)

/-- The registers that occur beside 0. -/
def injectedRegisters (lines : List (List ℤ)) : List ℕ :=
  (List.range' 1 31).filter (occurs lines)

/-- The groups: the runs of every register that occurs, or all runs if only 0 does. -/
def registerGroups (runs : List (List ℤ × δ)) : List (List (List ℤ × δ)) :=
  if injectedRegisters (runs.map Prod.fst) = [] then [runs]
  else (injectedRegisters (runs.map Prod.fst)).map fun k => ownRuns k runs

theorem ownRuns_eq (h : InOrder (runs.map Prod.fst)) (k : ℕ) :
    ownRuns k runs = runs.filter fun run => registerOf run.1 = k := by
  refine List.filter_congr ?_
  intro run hrun
  rw [h.field (List.mem_map_of_mem hrun)]
  exact decide_eq_decide.mpr (by rw [Option.some.injEq, Int.ofNat_inj])

theorem occurs_zero (h : InOrder lines) : occurs lines 0 = true := by
  obtain ⟨line, hhead, hzero⟩ := h.clean
  have hline : line ∈ lines := List.mem_of_mem_head? hhead
  exact List.any_eq_true.mpr ⟨line, hline, decide_eq_true (registerOf_eq hzero)⟩

/-- The registers of the file are 0 and the injected ones. -/
theorem filter_occurs (h : InOrder lines) :
    (List.range 32).filter (occurs lines) = 0 :: injectedRegisters lines := by
  have hrange : List.range 32 = 0 :: List.range' 1 31 := rfl
  rw [hrange, List.filter_cons_of_pos (occurs_zero h)]
  rfl

theorem registerOf_mem (h : InOrder lines) {line : List ℤ} (hline : line ∈ lines)
    (hpos : 1 ≤ registerOf line) : registerOf line ∈ injectedRegisters lines := by
  obtain ⟨k, hk, hfield⟩ := h.register line hline
  have hle : registerOf line ≤ 31 := by rw [registerOf_eq hfield]; exact hk
  have hocc : occurs lines (registerOf line) = true :=
    List.any_eq_true.mpr ⟨line, hline, decide_eq_true rfl⟩
  exact List.mem_filter.mpr ⟨List.mem_range'_1.mpr ⟨hpos, by omega⟩, hocc⟩

/-- **The slices are the groups.** -/
theorem byRegister_eq (h : InOrder (runs.map Prod.fst)) :
    ∃ indices, registerIndices (runs.map Prod.fst) = some indices ∧
      byRegister indices runs = some (registerGroups runs) := by
  have hposition : ∀ k, position registerOf k (runs.map Prod.fst)
      = position (fun run : List ℤ × δ => registerOf run.1) k runs := by
    intro k
    exact List.countP_map
  have hsorted : Ascending (fun run : List ℤ × δ => registerOf run.1) runs := by
    have hlines := h.sorted
    unfold Ascending at hlines ⊢
    rwa [List.pairwise_map] at hlines
  refine ⟨_, registerIndices_eq h, ?_⟩
  rw [filter_occurs h, registerGroups]
  simp only [hposition, ownRuns_eq h]
  cases hks : injectedRegisters (runs.map Prod.fst) with
  | nil =>
      have hzero : position (fun run : List ℤ × δ => registerOf run.1) 0 runs = 0 := by
        refine List.countP_eq_zero.mpr ?_
        intro run _
        simp
      rw [List.map_singleton, hzero, byRegister, indexSlices_cons]
      rfl
  | cons k ks =>
      have hascending : (k :: ks).Pairwise (· < ·) := by
        rw [← hks]
        exact (List.pairwise_lt_range' ..).sublist List.filter_sublist
      have hmem : k ∈ List.range' 1 31 := by
        refine (List.mem_filter (p := occurs (runs.map Prod.fst)).mp ?_).1
        change k ∈ injectedRegisters (runs.map Prod.fst)
        rw [hks]
        exact List.mem_cons_self ..
      have hcover : ∀ run ∈ runs, k ≤ registerOf run.1 → registerOf run.1 ∈ k :: ks := by
        intro run hrun hle
        rw [← hks]
        exact registerOf_mem h (List.mem_map_of_mem hrun)
          ((List.mem_range'_1.mp hmem).1.trans hle)
      have hcuts := cuts_positions hsorted ks k hascending hcover
      rw [List.map_cons] at hcuts
      rw [List.map_cons, List.map_cons, byRegister_cons, hcuts, if_neg (List.cons_ne_nil k ks)]

/-- The round `reg` of the loop shows group `reg`. -/
theorem plotted_eq (h : InOrder (runs.map Prod.fst)) (reg : ℕ) :
    plotted (runs.map Prod.fst) (runs.map Prod.snd) reg = (registerGroups runs)[reg]?.map
      fun group => (reg + 1, group.map Prod.fst, group.map Prod.snd) := by
  obtain ⟨indices, hindices, hgroups⟩ := byRegister_eq h
  unfold plotted
  simp only [hindices, byRegister_map, hgroups, Option.bind_eq_bind, Option.bind_some,
    Option.map_some, List.getElem?_map]
  cases (registerGroups runs)[reg]? <;> rfl

theorem occurs_iff (h : InOrder (runs.map Prod.fst)) (k : ℕ) :
    occurs (runs.map Prod.fst) k = true ↔
      ∃ run ∈ runs, registerField run.1 = some (k : ℤ) := by
  unfold occurs
  rw [List.any_map, List.any_eq_true]
  refine exists_congr fun run => and_congr_right fun hrun => ?_
  rw [h.field (List.mem_map_of_mem hrun), Option.some.injEq, Int.ofNat_inj]
  exact decide_eq_true_iff

/-- If no register is missing, every label is right. -/
theorem plotted_own (h : InOrder (runs.map Prod.fst))
    (hpresent : ∀ k : ℕ, 1 ≤ k → k ≤ 31 → ∃ run ∈ runs, registerField run.1 = some (k : ℤ))
    {k : ℕ} (h1 : 1 ≤ k) (hk : k ≤ 31) :
    plotted (runs.map Prod.fst) (runs.map Prod.snd) (k - 1)
      = some (k, (ownRuns k runs).map Prod.fst, (ownRuns k runs).map Prod.snd) := by
  have hall : injectedRegisters (runs.map Prod.fst) = List.range' 1 31 := by
    refine List.filter_eq_self.mpr ?_
    intro i hi
    obtain ⟨hle, hlt⟩ := List.mem_range'_1.mp hi
    exact (occurs_iff h i).mpr (hpresent i hle (by omega))
  have hget : (List.range' 1 31)[k - 1]? = some k := by
    rw [List.getElem?_range' (by omega), one_mul, Nat.add_sub_cancel' h1]
  rw [plotted_eq h, registerGroups, hall, if_neg (by decide), List.getElem?_map, hget,
    Option.map_some, Option.map_some, Nat.sub_add_cancel h1]

/-- If some group is the last of 31, no register is missing. -/
theorem injectedRegisters_full {group : List (List ℤ × δ)}
    (hgroup : (registerGroups runs)[30]? = some group) :
    injectedRegisters (runs.map Prod.fst) = List.range' 1 31 := by
  have hsub : (injectedRegisters (runs.map Prod.fst)).Sublist (List.range' 1 31) :=
    List.filter_sublist
  obtain ⟨hlen, -⟩ := List.getElem?_eq_some_iff.mp hgroup
  refine hsub.eq_of_length_le ?_
  unfold registerGroups at hlen
  split at hlen
  · exact absurd hlen (by rw [List.length_singleton]; decide)
  · rw [List.length_map] at hlen
    rw [List.length_range']
    exact hlen

/--
**Runs by register.** In a file in order, every label from `x1` to `x31` shows the runs of
its own register exactly when each of these registers has a run.
-/
theorem groups_right_iff (h : InOrder (runs.map Prod.fst)) :
    (∀ k, 1 ≤ k → k ≤ 31 → plotted (runs.map Prod.fst) (runs.map Prod.snd) (k - 1)
        = some (k, (ownRuns k runs).map Prod.fst, (ownRuns k runs).map Prod.snd)) ↔
      ∀ k : ℕ, 1 ≤ k → k ≤ 31 → ∃ run ∈ runs, registerField run.1 = some (k : ℤ) := by
  constructor
  · intro hplots k h1 hk
    -- the last plot needs 31 groups
    have hlast := hplots 31 (by decide) le_rfl
    rw [plotted_eq h] at hlast
    obtain ⟨group, hgroup, -⟩ := Option.map_eq_some_iff.mp hlast
    have hmem : k ∈ injectedRegisters (runs.map Prod.fst) := by
      rw [injectedRegisters_full hgroup]
      exact List.mem_range'_1.mpr ⟨h1, by omega⟩
    exact (occurs_iff h k).mp (List.mem_filter.mp hmem).2
  · intro hpresent k h1 hk
    exact plotted_own h hpresent h1 hk

end Groups

/-- The summary of a run of a register. -/
def summaryOf (register : ℕ) : List ℤ := [0x88, 0, 1, 0x3a4, 0, 0x100, register, 0, 12]

theorem registerField_summaryOf (k : ℕ) : registerField (summaryOf k) = some (k : ℤ) := rfl

/-- One run of every register. -/
def sweep : List (List ℤ × ℕ) := (List.range 32).map fun k => (summaryOf k, k)

theorem groups_right_sweep :
    plotted (sweep.map Prod.fst) (sweep.map Prod.snd) 30 = some (31, [summaryOf 31], [31]) := by
  have hlines : InOrder ((0 :: List.range' 1 31).map summaryOf) :=
    inOrder_map registerField_summaryOf rfl (by decide) (by decide)
  have horder : InOrder (sweep.map Prod.fst) := hlines
  have hown : ownRuns 31 sweep = [(summaryOf 31, 31)] := by decide +kernel
  have hplots := (groups_right_iff horder).mpr fun k _ hk =>
    ⟨(summaryOf k, k), List.mem_map_of_mem (List.mem_range.mpr (by omega)), rfl⟩
  have hlast := hplots 31 (by decide) le_rfl
  rw [hown] at hlast
  exact hlast

/-- Without a run of register 1, the label `x1` shows the run of register 2. -/
theorem groups_wrong_gap :
    ¬ ∀ (δ : Type) (runs : List (List ℤ × δ)), InOrder (runs.map Prod.fst) →
      ∀ k, 1 ≤ k → k ≤ 31 → plotted (runs.map Prod.fst) (runs.map Prod.snd) (k - 1)
        = some (k, (ownRuns k runs).map Prod.fst, (ownRuns k runs).map Prod.snd) := by
  intro h
  have hruns : InOrder ([(summaryOf 0, (0 : ℤ)), (summaryOf 2, 7)].map Prod.fst) :=
    inOrder_map registerField_summaryOf rfl (List.pairwise_singleton _ 2) (by decide)
  have hone := h ℤ _ hruns 1 le_rfl (by decide)
  revert hone
  decide +kernel

/-! ## From the injector to the plots -/

section Experiments

variable {clean : Experiment} {injected : List Experiment}

end Experiments

end Soft

end PassiFlo
