import PassiFlo.Proof.PathBuffer

/-!
# The runs of `dtn.c`

Between two runs all nodes draw a new status, and the generator goes on from where the
walk left it. Its state is never 0, so every walk ends; what can go wrong is only that a
path is longer than the array it is written to.
-/

namespace PassiFlo

namespace Soft

namespace Dtn

open Loop

variable {network : Network} {state seed : BitVec 64} {r r' : Runs} {w : Walk} {fuel : ℕ}

/-- What every run finds. -/
structure Fit (r : Runs) : Prop where
  ready : Ready r.network
  state : r.state ≠ 0

/-- Too few batches are good among those there is room for: the next path does not fit. -/
def Overruns (r : Runs) : Prop := goodBatches roomForWaits r.state < downAfter r.network 0

/-- The path of a route from the sender, on a network that is ready, and its cost. -/
def Delivered (cost : BitVec 64) (path : List ℕ) : Prop :=
  ∃ (network network' : Network) (state state' : BitVec 64) (i : Fin netNodes) (rest : List ℕ)
    (onward : BitVec 64), Ready network ∧ Cheapest network senderIndex 0 netNodes i ∧
      Route network state i rest onward network' state' ∧ path = i.val :: rest ∧
      cost = network.cost senderIndex i + onward

/-- A row of `paths`, with its cost: a path, and `INFINITY` up to the end. -/
def Row (row : BitVec 64 × List (BitVec 64)) : Prop :=
  ∃ path, Delivered row.1 path ∧ path.length ≤ pathMaxSize ∧
    row.2 = path.map (BitVec.ofNat 64) ++ List.replicate (pathMaxSize - path.length) infinity

/-! ## One run -/

/-- What a round keeps, the state of the generator included. -/
theorem OnWay.keeps {w' : Walk} (hw : OnWay w) (h : w.state ≠ 0) (hc : w.unrouted = true)
    (hstep : routeStep w = some w') : OnWay w' ∧ w'.state ≠ 0 := by
  rcases hw.step (hw.unrouted_iff.mp hc) with
    ⟨i, -, hhop, hnext⟩ | ⟨-, -, _, -, -, hwait, hnext⟩
  · obtain rfl := Option.some.inj (hhop.symm.trans hstep)
    exact ⟨hnext, h⟩
  · obtain rfl := Option.some.inj (hwait.symm.trans hstep)
    exact ⟨hnext, iterate_rand_ne_zero h 20⟩

/-- What a walk leaves. -/
theorem greedyPath_leaves (hnet : Ready network) (h : state ≠ 0)
    (hrun : greedyPath fuel network state = .done w) :
    w.state ≠ 0 ∧ w.network.up recieverIndex = true ∧ Delivered w.currentCost w.path := by
  obtain ⟨i, hcheap, hway, hstart⟩ := hnet.start state
  rw [hstart] at hrun
  have hkeeps : ∀ s t : Walk, OnWay s ∧ s.state ≠ 0 → s.unrouted = true →
      Outcome.ofOption (routeStep s) = .done t → OnWay t ∧ t.state ≠ 0 := by
    intro s t hs hc hbody
    exact hs.1.keeps hs.2 hc (Outcome.ofOption_eq_done_iff.mp hbody)
  obtain ⟨⟨hend, hstate⟩, -⟩ := whileLoop_invariant hkeeps fuel _ ⟨hway, h⟩ hrun
  obtain ⟨⟨rest, onward, hroute, hpath, hcost⟩, -⟩ := (routing_loop hway fuel).2 w hrun
  exact ⟨hstate, hend.reciever, _, _, _, _, i, rest, onward, hnet, hcheap, hroute, hpath, hcost⟩

/-- More fuel does not change where a walk ends. -/
theorem greedyPath_mono {fuel' : ℕ} (hle : fuel ≤ fuel')
    (hrun : greedyPath fuel network state = .done w) :
    greedyPath fuel' network state = .done w := by
  obtain ⟨first, hfirst, hloop⟩ := Outcome.bind_eq_done_iff.mp hrun
  exact Outcome.bind_eq_done_iff.mpr ⟨first, hfirst, whileLoop_mono hle _ hloop⟩

theorem pathArray_eq_some_iff {path : List ℕ} {row : List (BitVec 64)} :
    pathArray path = some row ↔ path.length ≤ pathMaxSize ∧
      row = path.map (BitVec.ofNat 64) ++
        List.replicate (pathMaxSize - path.length) infinity := by
  rw [pathArray]
  by_cases h : path.length ≤ pathMaxSize
  · rw [if_pos h, Option.some_inj, eq_comm]
    exact (and_iff_right h).symm
  · rw [if_neg h]
    exact iff_of_false (Option.some_ne_none _).symm fun hrow => h hrow.1

theorem pathArray_eq_none_iff {path : List ℕ} :
    pathArray path = none ↔ pathMaxSize < path.length := by
  rw [pathArray]
  by_cases h : path.length ≤ pathMaxSize
  · rw [if_pos h]
    exact iff_of_false (Option.some_ne_none _) (Nat.not_lt.mpr h)
  · rw [if_neg h]
    exact iff_of_true rfl (Nat.not_le.mp h)

/-- **One run**: it adds a cost and a row. -/
theorem runStep_done (hr : Fit r) (hrun : runStep fuel r = .done r') :
    Fit r' ∧ ∃ row, Row row ∧ r'.cost = r.cost ++ [row.1] ∧ r'.paths = r.paths ++ row.2 := by
  obtain ⟨w, hw, hrest⟩ := Outcome.bind_eq_done_iff.mp hrun
  obtain ⟨row, hrow, hrest⟩ := Outcome.bind_eq_done_iff.mp hrest
  obtain ⟨hstate, hup, hdelivered⟩ := greedyPath_leaves hr.ready hr.state hw
  obtain ⟨network', state', hall, hready, k, hk⟩ := randomStatusAll_ready hup w.state
  rw [hall] at hrest
  obtain rfl := Outcome.done.inj hrest
  have hnext : state' ≠ 0 := by
    rw [hk]
    exact iterate_rand_ne_zero hstate k
  have hrow := pathArray_eq_some_iff.mp (Outcome.ofOption_eq_done_iff.mp hrow)
  exact ⟨⟨hready, hnext⟩, (w.currentCost, row), ⟨w.path, hdelivered, hrow⟩, rfl, rfl⟩

/-- **One run ends**, if not with a path that is too long then well. -/
theorem runStep_ends (hr : Fit r) : ∃ (bound : ℕ) (o : Outcome Runs), o ≠ .timeout ∧
    (∀ fuel, bound ≤ fuel → runStep fuel r = o) ∧ (o = .fault ↔ Overruns r) := by
  obtain ⟨hlength, hreturns⟩ := greedyPath_takes hr.ready r.state
  obtain ⟨n, hn⟩ := exists_goodBatches hr.state (downAfter r.network 0)
  obtain ⟨bound, w, hw⟩ := hreturns n hn
  obtain ⟨waits, hlen, hneed⟩ := hlength bound w hw
  obtain ⟨-, hup, -⟩ := greedyPath_leaves hr.ready hr.state hw
  obtain ⟨network', state', hall, -⟩ := randomStatusAll_ready hup w.state
  have hlong : pathMaxSize < w.path.length ↔ Overruns r := by
    have hmax : pathMaxSize = 5 + roomForWaits := rfl
    have hfits := hneed roomForWaits
    rw [Overruns]
    omega
  obtain ⟨next, hstep⟩ : ∃ next : List (BitVec 64) → Runs, ∀ fuel, bound ≤ fuel →
      runStep fuel r = Outcome.ofOption (pathArray w.path) >>= fun path => .done (next path) := by
    refine ⟨fun path => ⟨network', state', r.cost ++ [w.currentCost], r.paths ++ path⟩, ?_⟩
    intro fuel hle
    rw [runStep, greedyPath_mono hle hw, Outcome.done_bind, hall]
    rfl
  cases hrow : pathArray w.path with
  | none =>
      have hover := hlong.mp (pathArray_eq_none_iff.mp hrow)
      refine ⟨bound, .fault, by simp, ?_, iff_of_true rfl hover⟩
      intro fuel hle
      rw [hstep fuel hle, hrow]
      rfl
  | some row =>
      have hover : ¬ Overruns r := by
        intro h
        rw [pathArray_eq_none_iff.mpr (hlong.mpr h)] at hrow
        exact Option.some_ne_none _ hrow.symm
      refine ⟨bound, .done (next row), by simp, ?_, iff_of_false (by simp) hover⟩
      intro fuel hle
      rw [hstep fuel hle, hrow]
      rfl

/-! ## All runs -/

theorem runSteps_done {n : ℕ} (hr : Fit r) (hrun : runSteps fuel n r = .done r') :
    ∃ rows : List (BitVec 64 × List (BitVec 64)), rows.length = n ∧ (∀ row ∈ rows, Row row) ∧
      r'.cost = r.cost ++ rows.map Prod.fst ∧ r'.paths = r.paths ++ rows.flatMap Prod.snd := by
  induction n generalizing r with
  | zero =>
      obtain rfl := Outcome.done.inj hrun
      exact ⟨[], rfl, fun row hrow => absurd hrow List.not_mem_nil,
        (List.append_nil _).symm, (List.append_nil _).symm⟩
  | succ n ih =>
      obtain ⟨t, hstep, hrest⟩ := Outcome.bind_eq_done_iff.mp hrun
      obtain ⟨ht, row, hrow, hcost, hpaths⟩ := runStep_done hr hstep
      obtain ⟨rows, hlen, hrows, hcosts, hall⟩ := ih ht hrest
      refine ⟨row :: rows, congrArg (· + 1) hlen, List.forall_mem_cons.mpr ⟨hrow, hrows⟩, ?_, ?_⟩
      · rw [hcosts, hcost, List.append_assoc]
        rfl
      · rw [hall, hpaths, List.append_assoc]
        rfl

/-- They end, if none has a path that is too long then well. -/
theorem runSteps_ends (n : ℕ) (hr : Fit r) : ∃ (bound : ℕ) (o : Outcome Runs), o ≠ .timeout ∧
    ∀ fuel, bound ≤ fuel → runSteps fuel n r = o ∧
      (o = .fault ↔ ∃ k < n, ∃ t, runSteps fuel k r = .done t ∧ Overruns t) := by
  induction n generalizing r with
  | zero =>
      refine ⟨0, .done r, by simp, fun fuel _ => ⟨rfl, iff_of_false (by simp) ?_⟩⟩
      intro h
      obtain ⟨k, hk, -⟩ := h
      exact Nat.not_lt_zero k hk
  | succ n ih =>
      obtain ⟨bound, o, ho, hstep, hfault⟩ := runStep_ends hr
      cases o with
      | timeout => exact absurd rfl ho
      | fault =>
          refine ⟨bound, .fault, ho, fun fuel hle => ⟨?_, iff_of_true rfl ?_⟩⟩
          · rw [runSteps, hstep fuel hle]
            rfl
          · exact ⟨0, Nat.succ_pos n, r, rfl, hfault.mp rfl⟩
      | done t =>
          obtain ⟨ht, -⟩ := runStep_done hr (hstep bound le_rfl)
          obtain ⟨bound', o', ho', hsteps⟩ := ih ht
          refine ⟨max bound bound', o', ho', fun fuel hle => ?_⟩
          obtain ⟨hrest, hfault'⟩ := hsteps fuel (le_of_max_le_right hle)
          -- the first run is the same in all of them
          have hfirst : ∀ k, runSteps fuel (k + 1) r = runSteps fuel k t := by
            intro k
            rw [runSteps, hstep fuel (le_of_max_le_left hle)]
            rfl
          refine ⟨(hfirst n).trans hrest, hfault'.trans ?_⟩
          constructor
          · intro h
            obtain ⟨k, hk, u, hu, hover⟩ := h
            exact ⟨k + 1, Nat.succ_lt_succ hk, u, (hfirst k).trans hu, hover⟩
          · intro h
            obtain ⟨k, hk, u, hu, hover⟩ := h
            cases k with
            | zero =>
                obtain rfl := Outcome.done.inj hu
                exact absurd (hfault.mpr hover) (by simp)
            | succ k => exact ⟨k, Nat.lt_of_succ_lt_succ hk, u, (hfirst k).symm.trans hu, hover⟩

theorem mainStart_fit (network : Network) (hseed : seed ≠ 0) :
    ∃ start, mainStart network seed = some start ∧ Fit start ∧ start.cost = [] ∧
      start.paths = [] := by
  obtain ⟨network', state', hinit, hready, k, hk⟩ := networkInit_ready network (randInit seed)
  refine ⟨_, by rw [mainStart, hinit]; rfl, ⟨hready, ?_⟩, rfl, rfl⟩
  rw [hk]
  exact iterate_rand_ne_zero hseed k

/--
**The runs of `dtn.c`.** Whatever the array of nodes held and whatever the seed but 0, `main`
ends. It goes wrong exactly if, at the start of one of the runs, more levels are down than
batches are good among those there is room for; otherwise each of its costs is that of a
route from the sender, whose nodes are in its row of `paths`, followed by `INFINITY`.
-/
theorem main_delivers (network : Network) (hseed : seed ≠ 0) :
    ∃ (bound : ℕ) (o : Outcome Runs), o ≠ .timeout ∧ ∀ fuel, bound ≤ fuel →
      main fuel network seed = o ∧
      (o = .fault ↔ ∃ start, mainStart network seed = some start ∧
        ∃ k < runCount, ∃ r, runSteps fuel k start = .done r ∧ Overruns r) ∧
      ∀ r, o = .done r → ∃ rows : List (BitVec 64 × List (BitVec 64)),
        rows.length = runCount ∧ (∀ row ∈ rows, Row row) ∧
        r.cost = rows.map Prod.fst ∧ r.paths = rows.flatMap Prod.snd := by
  obtain ⟨start, hstart, hfit, hcost, hpaths⟩ := mainStart_fit network hseed
  obtain ⟨bound, o, ho, hends⟩ := runSteps_ends runCount hfit
  refine ⟨bound, o, ho, fun fuel hle => ?_⟩
  obtain ⟨hrun, hfault⟩ := hends fuel hle
  refine ⟨?_, ?_, ?_⟩
  · rw [main, hstart]
    exact hrun
  · rw [hfault]
    constructor
    · intro h
      exact ⟨start, hstart, h⟩
    · intro h
      obtain ⟨start', hstart', h⟩ := h
      obtain rfl := Option.some.inj (hstart.symm.trans hstart')
      exact h
  · intro r hr
    obtain ⟨rows, hlen, hrows, hcosts, hall⟩ := runSteps_done hfit (hrun.trans hr)
    rw [hcost, List.nil_append] at hcosts
    rw [hpaths, List.nil_append] at hall
    exact ⟨rows, hlen, hrows, hcosts, hall⟩

/-- With `SEED`, and all nodes up before. -/
theorem main_delivers_seeded :
    ∃ (bound : ℕ) (o : Outcome Runs), o ≠ .timeout ∧
      ∀ fuel, bound ≤ fuel → main fuel (upBelow 16) 0xaddc0defe3d5ee3d = o := by
  have hseed : (0xaddc0defe3d5ee3d : BitVec 64) ≠ 0 := by decide
  obtain ⟨bound, o, ho, h⟩ := main_delivers (upBelow 16) hseed
  exact ⟨bound, o, ho, fun fuel hle => (h fuel hle).1⟩

end Dtn

end Soft

end PassiFlo
