import PassiFlo.Soft.ErrorBins

/-!
# Which function a failure is charged to

The largest of four falses is the first of them: a failed run whose PC lies in none of
the ranges is charged to the first function. All other failed runs go where they belong.
-/

namespace PassiFlo

namespace Soft

/-! ## The bin of a PC -/

theorem argmax_of_true {l : List Bool} {k : ℕ} (hk : l[k]? = some true)
    (hfirst : ∀ j < k, l[j]? = some false) : argmax l = k := by
  have hany : l.any id = true := List.any_eq_true.mpr ⟨true, List.mem_of_getElem? hk, rfl⟩
  rw [argmax, hany]
  induction l generalizing k with
  | nil => exact absurd hk (by simp)
  | cons b l ih =>
      cases k with
      | zero =>
          obtain rfl := Option.some.inj hk
          exact List.idxOf_cons_self
      | succ k =>
          obtain rfl := Option.some.inj (hfirst 0 (Nat.succ_pos k))
          rw [List.idxOf_cons_ne _ Bool.false_ne_true]
          have hrest := ih hk (fun j hj => hfirst (j + 1) (Nat.succ_lt_succ hj))
            (List.any_eq_true.mpr ⟨true, List.mem_of_getElem? hk, rfl⟩)
          rw [hrest]

theorem argmax_of_false {l : List Bool} (hl : ∀ b ∈ l, b = false) : argmax l = 0 := by
  cases l with
  | nil => rfl
  | cons b l =>
      have hany : (b :: l).any id = false := List.any_eq_false.mpr fun c hc => by simp [hl c hc]
      rw [argmax, hany, hl b (List.mem_cons_self ..)]
      exact List.idxOf_cons_self

/-- The ranges are in ascending order and do not meet. -/
theorem binRanges_sorted : binRanges.Pairwise fun x z => x.2 < z.1 := by decide

/-- The bin a PC is put in. -/
def binOf (pc : ℕ) : ℕ := argmax (binRanges.map fun x => inRange x pc)

/-- The PC lies in none of the ranges. -/
def stray (pc : ℕ) : Bool := binRanges.all fun x => !inRange x pc

theorem binOf_inRange {k pc : ℕ} {range : ℕ × ℕ} (hk : binRanges[k]? = some range)
    (hin : inRange range pc = true) : binOf pc = k := by
  refine argmax_of_true (by rw [List.getElem?_map, hk, Option.map_some, hin]) fun j hj => ?_
  obtain ⟨hlen, hget⟩ := List.getElem?_eq_some_iff.mp hk
  have hlt : j < binRanges.length := hj.trans hlen
  have hsep : binRanges[j].2 < range.1 := by
    rw [← hget]
    exact List.pairwise_iff_getElem.mp binRanges_sorted j k hlt hlen hj
  have hout : inRange binRanges[j] pc = false := by
    simp only [inRange, Bool.and_eq_true, decide_eq_true_eq] at hin
    simp only [inRange, Bool.and_eq_false_iff, decide_eq_false_iff_not]
    omega
  rw [List.getElem?_map, List.getElem?_eq_getElem hlt, Option.map_some, hout]

theorem binOf_stray {pc : ℕ} (h : stray pc = true) : binOf pc = 0 := by
  refine argmax_of_false fun b hb => ?_
  obtain ⟨x, hx, rfl⟩ := List.mem_map.mp hb
  simpa using List.all_eq_true.mp h x hx

/-- **One PC.** Bin `k` gets the PCs of its range, and bin 0 the stray ones too. -/
theorem binOf_eq_iff {k : ℕ} {range : ℕ × ℕ} (hk : binRanges[k]? = some range) (pc : ℕ) :
    binOf pc = k ↔ inRange range pc = true ∨ k = 0 ∧ stray pc = true := by
  constructor
  · intro h
    cases hs : stray pc with
    | true => exact .inr ⟨h.symm.trans (binOf_stray hs), rfl⟩
    | false =>
        obtain ⟨x, hx, hin⟩ := List.all_eq_false.mp hs
        obtain ⟨j, hj⟩ := List.getElem?_of_mem hx
        have hinx : inRange x pc = true := by simpa using hin
        have hjk : j = k := (binOf_inRange hj hinx).symm.trans h
        rw [hjk, hk] at hj
        rw [Option.some.inj hj]
        exact .inl hinx
  · intro hbin
    rcases hbin with hin | ⟨rfl, hs⟩
    · exact binOf_inRange hk hin
    · exact binOf_stray hs

/-! ## The loop -/

section Loop

variable {args : StackArgs} (expectedResults : args.Dump)

/-- A failed run with its PC in the range. -/
def failedIn (range : ℕ × ℕ) (run : Summary × args.Dump) : Bool :=
  !success args expectedResults run && inRange range run.1.pcInject

/-- A failed run with its PC in none of the ranges. -/
def failedStray (run : Summary × args.Dump) : Bool :=
  !success args expectedResults run && stray run.1.pcInject

/-- What one run adds to bin `k`. -/
theorem add_bins (t : Tally) (run : Summary × args.Dump) {k : ℕ} {range : ℕ × ℕ}
    (hk : binRanges[k]? = some range) :
    (t.add args expectedResults run).bins[k]? = t.bins[k]?.map
      (· + ((failedIn expectedResults range run).toNat +
        if k = 0 then (failedStray expectedResults run).toNat else 0)) := by
  unfold Tally.add failedIn failedStray
  cases success args expectedResults run with
  | true => simp
  | false =>
      have hbin := binOf_eq_iff hk run.1.pcInject
      -- a stray PC is in no range, so the two ways into bin 0 exclude each other
      have hexcl : stray run.1.pcInject = true → inRange range run.1.pcInject = false := by
        intro hs
        simpa using List.all_eq_true.mp hs range (List.mem_of_getElem? hk)
      simp only [Bool.false_eq_true, if_false, List.getElem?_modify, Bool.not_false, Bool.true_and]
      change (fun a => if binOf run.1.pcInject = k then a + 1 else a) <$> t.bins[k]? = _
      rw [Option.map_eq_map]
      congr 1
      funext a
      by_cases h0 : k = 0 <;> cases hs : stray run.1.pcInject <;>
        cases hr : inRange range run.1.pcInject <;> simp_all

/-- **The bins.** Each has the failed runs of its range; bin 0 has the stray ones as well. -/
theorem classify_bins (summaries : List Summary) (memdumps : List args.Dump) {k : ℕ}
    {range : ℕ × ℕ} (hk : binRanges[k]? = some range) :
    (classify args expectedResults summaries memdumps).bins[k]? =
      some ((summaries.zip memdumps).countP (failedIn expectedResults range) +
        if k = 0 then (summaries.zip memdumps).countP (failedStray expectedResults) else 0) := by
  have hloop : ∀ (runs : List (Summary × args.Dump)) (t : Tally),
      (runs.foldl (Tally.add args expectedResults) t).bins[k]? = t.bins[k]?.map
        (· + (runs.countP (failedIn expectedResults range) +
          if k = 0 then runs.countP (failedStray expectedResults) else 0)) := by
    intro runs
    induction runs with
    | nil => intro t; simp
    | cons run runs ih =>
        intro t
        rw [List.foldl_cons, ih, add_bins expectedResults t run hk, Option.map_map]
        congr 1
        funext a
        simp only [Function.comp_apply, List.countP_cons]
        split_ifs <;> simp_all <;> omega
  have hlen : k < binRanges.length := (List.getElem?_eq_some_iff.mp hk).1
  rw [classify, hloop, List.getElem?_replicate, if_pos hlen, Option.map_some, Nat.zero_add]

end Loop

/--
**Error attribution.** Every bin counts the failed runs of its range, and those alone,
exactly when no failed run has its PC outside of all ranges.
-/
theorem bins_right_iff (args : StackArgs) (expectedResults : args.Dump)
    (summaries : List Summary) (memdumps : List args.Dump) :
    (∀ (k : ℕ) (range : ℕ × ℕ), binRanges[k]? = some range →
      (classify args expectedResults summaries memdumps).bins[k]? =
        some ((summaries.zip memdumps).countP fun run =>
          !success args expectedResults run && inRange range run.1.pcInject)) ↔
      ∀ run ∈ summaries.zip memdumps, success args expectedResults run = false →
        ∃ range ∈ binRanges, inRange range run.1.pcInject = true := by
  have hstray : (summaries.zip memdumps).countP (failedStray expectedResults) = 0 ↔
      ∀ run ∈ summaries.zip memdumps, success args expectedResults run = false →
        ∃ range ∈ binRanges, inRange range run.1.pcInject = true := by
    rw [List.countP_eq_zero]
    refine forall₂_congr fun run _ => ?_
    simp [failedStray, stray]
  rw [← hstray]
  constructor
  · intro h
    have h0 := h 0 _ rfl
    rw [classify_bins expectedResults summaries memdumps rfl, if_pos rfl] at h0
    exact Nat.add_eq_left.mp (Option.some.inj h0)
  · intro h k range hk
    rw [classify_bins expectedResults summaries memdumps hk, h, ite_self, Nat.add_zero]
    rfl

/-- The report of a run that was injected at `pc` and exited with `code`. -/
def report (pc code : ℕ) : Summary := ⟨[pc, 0, 0, 0, code], Nat.lt_succ_self 4⟩

/-- A failed run at 0x1000, outside of all ranges, is counted for the first function. -/
theorem bins_stray :
    ¬ ∀ (args : StackArgs) (expectedResults : args.Dump) (summaries : List Summary)
      (memdumps : List args.Dump) (k : ℕ) (range : ℕ × ℕ), binRanges[k]? = some range →
        (classify args expectedResults summaries memdumps).bins[k]? =
          some ((summaries.zip memdumps).countP fun run =>
            !success args expectedResults run && inRange range run.1.pcInject) := by
  intro h
  have h0 := h .address (0 : ℕ) [report 0x1000 1] [(0 : ℕ)] 0 _ rfl
  revert h0
  decide +kernel

end Soft

end PassiFlo
