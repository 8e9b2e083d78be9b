import PassiFlo.Rtl.Sdram

/-!
# Bringing the SDRAM up

Until the mode register is set the controller does not look at its inputs, so every
run starts with the same commands at the same times. `Scheduled n s` says what the
state is after `n` cycles: one constructor per phase, each with the timer that runs in
it, and `ready` for everything after. What is issued when, and every spacing the chip
asks for, is read off the schedule.
-/

namespace PassiFlo

open Clocked

namespace MemControl

/-! ## The schedule -/

/-- When the `k`-th refresh is issued. -/
def refAt (k : Nat) : Nat := tInit + tRP + 1 + k * (tRC + 1)

/-- When the mode register is set. -/
def mrsAt : Nat := refAt 8

/-- When the first request can be served. -/
def readyAt : Nat := mrsAt + tMRD + 1

/-- A state with every timer loaded. -/
def rest (currState : MemControlState) (counter : Nat) (stat : Bool) : MemControl :=
  { released with
    currState := currState, timerInit := 0, counterRefreshInit := BitVec.ofNat 5 counter
    statModeRegSet := stat }

/-- Initialisation is over. -/
structure Ready (s : MemControl) : Prop where
  state : s.currState = .idle ∨ s.currState = .active
  counter : s.counterRefreshInit = 0
  stat : s.statModeRegSet = false

/-- The state `n` cycles after reset. -/
inductive Scheduled : Nat → MemControl → Prop
  | waiting {n : Nat} : n ≤ tInit →
      Scheduled n { released with timerInit := BitVec.ofNat 16 (tInit - n) }
  | precharging {j : Nat} : j < tRP →
      Scheduled (tInit + 1 + j)
        { rest .prechargeAll 8 false with timerTRP := BitVec.ofNat 2 (tRP - 1 - j) }
  | refresh {k : Nat} : k < 8 → Scheduled (refAt k) (rest .idle (8 - k) (decide (k ≠ 0)))
  | refreshing {k j : Nat} : k < 8 → j < tRC →
      Scheduled (refAt k + 1 + j)
        { rest .autorefInit (8 - k) true with timerTRC := BitVec.ofNat 4 (tRC - 1 - j) }
  | modeSet : Scheduled mrsAt (rest .idle 0 true)
  | settling {j : Nat} {stat : Bool} : j < tMRD →
      Scheduled (mrsAt + 1 + j)
        { rest .regset 0 stat with timerTMRD := BitVec.ofNat 2 (tMRD - 1 - j) }
  | ready {n : Nat} {s : MemControl} : readyAt ≤ n → Ready s →
      (n = readyAt → s.currState = .idle) → Scheduled n s

/-! ## Timers -/

theorem ofNat_eq_zero {w m : Nat} (h : m < 2 ^ w) : BitVec.ofNat w m = 0 ↔ m = 0 := by
  rw [← BitVec.toNat_inj, BitVec.toNat_ofNat, Nat.mod_eq_of_lt h]
  rfl

/-- One tick of a running timer. -/
theorem ofNat_sub_one {w m : Nat} (h : 0 < m) : BitVec.ofNat w m - 1 = BitVec.ofNat w (m - 1) := by
  obtain ⟨k, rfl⟩ : ∃ k, m = k + 1 := ⟨m - 1, by omega⟩
  rw [BitVec.ofNat_add, Nat.add_sub_cancel]
  exact BitVec.add_sub_cancel _ _

/-! ## The step -/

theorem scheduled_waiting {n : Nat} (i : MemControlIn) (hn : n ≤ tInit) :
    Scheduled (n + 1) (next i { released with timerInit := BitVec.ofNat 16 (tInit - n) }) := by
  rcases Nat.lt_or_eq_of_le hn with hlt | rfl
  · have hne : BitVec.ofNat 16 (tInit - n) ≠ 0 := by
      have h16 : tInit < 2 ^ 16 := by decide
      rw [ne_eq, ofNat_eq_zero (by omega)]
      omega
    have htick : BitVec.ofNat 16 (tInit - n) - 1 = BitVec.ofNat 16 (tInit - (n + 1)) :=
      ofNat_sub_one (by omega)
    have hnext : next i { released with timerInit := BitVec.ofNat 16 (tInit - n) } =
        { released with timerInit := BitVec.ofNat 16 (tInit - (n + 1)) } := by
      simp only [next, out, memControlOut, released, if_neg hne, if_pos hne, htick]
      rfl
    rw [hnext]
    exact .waiting hlt
  · -- the timer is up: precharge
    rw [Nat.sub_self]
    exact .precharging (j := 0) (by decide)

theorem scheduled_precharging {j : Nat} (i : MemControlIn) (hj : j < tRP) :
    Scheduled (tInit + 1 + j + 1) (next i
      { rest .prechargeAll 8 false with timerTRP := BitVec.ofNat 2 (tRP - 1 - j) }) := by
  have hj2 : j < 2 := hj
  interval_cases j
  · exact .precharging (j := 1) (by decide)
  · exact .refresh (k := 0) (by decide)

theorem scheduled_refresh {k : Nat} (i : MemControlIn) (hk : k < 8) :
    Scheduled (refAt k + 1) (next i (rest .idle (8 - k) (decide (k ≠ 0)))) := by
  have hne : BitVec.ofNat 5 (8 - k) ≠ 0 := by
    rw [ne_eq, ofNat_eq_zero (by omega)]
    omega
  have hnext : next i (rest .idle (8 - k) (decide (k ≠ 0))) =
      { rest .autorefInit (8 - k) true with timerTRC := BitVec.ofNat 4 (tRC - 1 - 0) } := by
    simp only [next, out, memControlOut, rest, if_pos hne]
    rfl
  rw [hnext]
  exact .refreshing hk (j := 0) (by decide)

theorem scheduled_refreshing {k j : Nat} (i : MemControlIn) (hk : k < 8) (hj : j < tRC) :
    Scheduled (refAt k + 1 + j + 1) (next i
      { rest .autorefInit (8 - k) true with timerTRC := BitVec.ofNat 4 (tRC - 1 - j) }) := by
  by_cases hlast : j + 1 < tRC
  · have h8 : tRC = 8 := rfl
    have hne : BitVec.ofNat 4 (tRC - 1 - j) ≠ 0 := by
      rw [ne_eq, ofNat_eq_zero (by omega)]
      omega
    have htick : BitVec.ofNat 4 (tRC - 1 - j) - 1 = BitVec.ofNat 4 (tRC - 1 - (j + 1)) :=
      ofNat_sub_one (by omega)
    have hnext : next i
          { rest .autorefInit (8 - k) true with timerTRC := BitVec.ofNat 4 (tRC - 1 - j) } =
        { rest .autorefInit (8 - k) true with timerTRC := BitVec.ofNat 4 (tRC - 1 - (j + 1)) } := by
      simp only [next, out, memControlOut, rest, if_neg hne, timerNext, htick]
      rfl
    rw [hnext]
    exact .refreshing hk hlast
  · -- the timer is up: one refresh less to go
    obtain rfl : j = tRC - 1 := by omega
    have hcount : BitVec.ofNat 5 (8 - k) - 1 = BitVec.ofNat 5 (8 - (k + 1)) :=
      ofNat_sub_one (by omega)
    have hnext : next i
          { rest .autorefInit (8 - k) true with timerTRC := BitVec.ofNat 4 (tRC - 1 - (tRC - 1)) } =
        rest .idle (8 - (k + 1)) true := by
      have hzero : BitVec.ofNat 4 (tRC - 1 - (tRC - 1)) = 0 := by decide
      simp only [next, out, memControlOut, rest, hzero, if_true, timerNext, hcount]
      rfl
    have htime : refAt k + 1 + (tRC - 1) + 1 = refAt (k + 1) := by
      have h8 : tRC = 8 := rfl
      rw [refAt, refAt, h8]
      omega
    rw [hnext, htime]
    rcases Nat.lt_or_eq_of_le (Nat.succ_le_of_lt hk) with hlt | heq
    · exact .refresh hlt
    · obtain rfl : k = 7 := by omega
      exact .modeSet

theorem scheduled_settling {j : Nat} {stat : Bool} (i : MemControlIn) (hj : j < tMRD) :
    Scheduled (mrsAt + 1 + j + 1) (next i
      { rest .regset 0 stat with timerTMRD := BitVec.ofNat 2 (tMRD - 1 - j) }) := by
  have hj2 : j < 2 := hj
  interval_cases j
  · have hnext : next i
          { rest .regset 0 stat with timerTMRD := BitVec.ofNat 2 (tMRD - 1 - 0) } =
        { rest .regset 0 false with timerTMRD := BitVec.ofNat 2 (tMRD - 1 - 1) } := by
      have hne : BitVec.ofNat 2 (tMRD - 1 - 0) ≠ 0 := by decide
      have htick : BitVec.ofNat 2 (tMRD - 1 - 0) - 1 = BitVec.ofNat 2 (tMRD - 1 - 1) := by decide
      simp only [next, out, memControlOut, rest, if_neg hne, timerNext, htick]
      rfl
    rw [hnext]
    exact .settling (j := 1) (by decide)
  · exact .ready (Nat.le_refl _) ⟨.inl rfl, rfl, rfl⟩ fun _ => rfl

/-- What a ready controller drives. -/
theorem ready_out {s : MemControl} (h : Ready s) (op : BitVec 2) :
    memControlOut s op =
      if s.currState = .active then { nopOut 0 .idle with command := .desl }
      else if op ≠ 0 then { nopOut addrA10 .active with command := .act, dataMask := 0b00#2 }
      else nopOut addrA10 .idle := by
  rcases h.state with hs | hs
  · simp only [memControlOut, hs, h.counter, h.stat, ne_eq, not_true_eq_false, if_false,
      Bool.false_eq_true, reduceCtorEq]
  · simp only [memControlOut, hs, if_true]

/-- Once ready, the controller alternates between waiting for a request and serving it. -/
theorem ready_next (i : MemControlIn) {s : MemControl} (h : Ready s) : Ready (next i s) := by
  have hout := ready_out h i.op
  by_cases hactive : s.currState = .active
  · rw [if_pos hactive] at hout
    simp only [next, out, hout]
    exact ⟨.inl rfl, h.counter, rfl⟩
  rw [if_neg hactive] at hout
  by_cases hop : i.op ≠ 0
  · rw [if_pos hop] at hout
    simp only [next, out, hout]
    exact ⟨.inr rfl, h.counter, rfl⟩
  · rw [if_neg hop] at hout
    simp only [next, out, hout]
    exact ⟨.inl rfl, h.counter, rfl⟩

/-- **The schedule is kept.** -/
theorem scheduled_next {n : Nat} {s : MemControl} (i : MemControlIn) (h : Scheduled n s) :
    Scheduled (n + 1) (next i s) := by
  cases h with
  | waiting hn => exact scheduled_waiting i hn
  | precharging hj => exact scheduled_precharging i hj
  | refresh hk => exact scheduled_refresh i hk
  | refreshing hk hj => exact scheduled_refreshing i hk hj
  | modeSet => exact @Scheduled.settling 0 true (by decide)
  | settling hj => exact scheduled_settling i hj
  | ready hn hs _ => exact .ready (Nat.le_succ_of_le hn) (ready_next i hs) (by omega)

theorem scheduled_run (is : List MemControlIn) {n : Nat} {s : MemControl} (h : Scheduled n s) :
    Scheduled (n + is.length) (run next is s) := by
  induction is generalizing n s with
  | nil => exact h
  | cons i is ih =>
      have hstep := ih (scheduled_next i h)
      rwa [Nat.add_right_comm, Nat.add_assoc] at hstep

theorem scheduled_released : Scheduled 0 released := .waiting (Nat.zero_le _)

/-! ## What is issued when -/

/-- The command of cycle `n`, up to `readyAt`. -/
def planned (n : Nat) : DramCommand :=
  if n = tInit then .pre
  else if n = mrsAt then .mrs
  else if n ∈ (List.range 8).map refAt then .ref
  else .nop

theorem planned_waiting {n : Nat} (hn : n < tInit) : planned n = .nop := by
  have hmrs : tInit < mrsAt := by decide
  have href : n ∉ (List.range 8).map refAt := by
    intro hmem
    obtain ⟨k, -, hk⟩ := List.mem_map.mp hmem
    have hle : tInit ≤ refAt k := by rw [refAt]; omega
    omega
  rw [planned, if_neg (by omega), if_neg (by omega), if_neg href]

theorem planned_pre {n : Nat} (h : planned n = .pre) : n = tInit := by
  unfold planned at h
  split_ifs at h with h1
  exact h1

theorem planned_ref {n : Nat} (h : planned n = .ref) : ∃ k < 8, n = refAt k := by
  unfold planned at h
  split_ifs at h with _ _ h3
  obtain ⟨k, hk, hn⟩ := List.mem_map.mp h3
  exact ⟨k, List.mem_range.mp hk, hn.symm⟩

theorem planned_mrs {n : Nat} (h : planned n = .mrs) : n = mrsAt := by
  unfold planned at h
  split_ifs at h with _ h2
  exact h2

theorem planned_ne_act (n : Nat) : planned n ≠ .act := by
  unfold planned
  split_ifs <;> exact fun h => nomatch h

/-- **The command of a cycle.** -/
theorem scheduled_command {n : Nat} {s : MemControl} (h : Scheduled n s) (op : BitVec 2) :
    n < readyAt ∧ (memControlOut s op).command = planned n ∨
      readyAt ≤ n ∧ ((memControlOut s op).command = .act ∨ (memControlOut s op).command = .nop ∨
        (memControlOut s op).command = .desl) := by
  have hready : readyAt = mrsAt + 3 := rfl
  have hrefs : ∀ k < 8, refAt k < readyAt ∧ planned (refAt k) = .ref := by decide
  have hwaits : ∀ k < 8, ∀ j < tRC,
      refAt k + 1 + j < readyAt ∧ planned (refAt k + 1 + j) = .nop := by
    decide
  cases h with
  | waiting hn =>
      have htInit : tInit < readyAt := by decide
      refine .inl ⟨Nat.lt_of_le_of_lt hn htInit, ?_⟩
      rcases Nat.lt_or_eq_of_le hn with hlt | rfl
      · have hne : BitVec.ofNat 16 (tInit - n) ≠ 0 := by
          have h16 : tInit < 2 ^ 16 := by decide
          rw [ne_eq, ofNat_eq_zero (by omega)]
          omega
        rw [planned_waiting hlt]
        simp only [memControlOut, released, if_neg hne]
        rfl
      · rw [Nat.sub_self]
        rfl
  | @precharging j hj =>
      have hj2 : j < 2 := hj
      interval_cases j
      · exact .inl ⟨by decide, rfl⟩
      · exact .inl ⟨by decide, rfl⟩
  | @refresh k hk =>
      have hne : BitVec.ofNat 5 (8 - k) ≠ 0 := by
        rw [ne_eq, ofNat_eq_zero (by omega)]
        omega
      refine .inl ⟨(hrefs k hk).1, ?_⟩
      rw [(hrefs k hk).2]
      simp only [memControlOut, rest, if_pos hne]
  | @refreshing k j hk hj =>
      refine .inl ⟨(hwaits k hk j hj).1, ?_⟩
      rw [(hwaits k hk j hj).2]
      simp only [memControlOut, rest]
      split_ifs <;> rfl
  | modeSet => exact .inl ⟨by decide, rfl⟩
  | @settling j stat hj =>
      have hj2 : j < 2 := hj
      interval_cases j
      · exact .inl ⟨by decide, rfl⟩
      · exact .inl ⟨by decide, rfl⟩
  | ready hn hs _ =>
      refine .inr ⟨hn, ?_⟩
      rw [ready_out hs op]
      split_ifs
      · exact .inr (.inr rfl)
      · exact .inl rfl
      · exact .inr (.inl rfl)

/-- The mode register is on the pins when it is set. -/
theorem mrs_pins {s : MemControl} {op : BitVec 2} (hc : (memControlOut s op).command = .mrs) :
    (memControlOut s op).dramAddr = modeRegister.extractLsb' 0 13 ∧
      (memControlOut s op).bank = modeRegister.extractLsb' 14 2 := by
  cases hs : s.currState with
  | idle =>
      simp only [memControlOut, hs] at hc ⊢
      split_ifs at hc ⊢ with hcount hstat hop
      · exact ⟨rfl, rfl⟩
      · exact nomatch hc
  | init | prechargeAll | autorefInit | regset =>
      simp only [memControlOut, hs] at hc
      split_ifs at hc <;> exact nomatch hc
  | activating | active | reading | writing | autoref =>
      simp only [memControlOut, hs] at hc
      exact nomatch hc

/-- A timer that is decremented in this cycle has not run out. -/
structure NoUnderflow (s : MemControl) (o : MemControlOut) : Prop where
  tRC : o.enableTRC = true → s.timerTRC ≠ 0
  tRP : o.enableTRP = true → s.timerTRP ≠ 0
  tMRD : o.enableTMRD = true → s.timerTMRD ≠ 0
  tRRD : o.enableTRRD = true → s.timerTRRD ≠ 0
  tRCD : o.enableTRCD = true → s.timerTRCD ≠ 0
  refresh : o.enableRefreshInit = true → s.counterRefreshInit ≠ 0

/-- **The timers stop in time.** -/
theorem scheduled_noUnderflow {n : Nat} {s : MemControl} (h : Scheduled n s) (op : BitVec 2) :
    NoUnderflow s (memControlOut s op) := by
  cases h with
  | waiting hn =>
      simp only [memControlOut, released]
      split_ifs
      · exact ⟨nofun, fun _ => (by decide : BitVec.ofNat 2 tRP ≠ 0), nofun, nofun, nofun, nofun⟩
      · exact ⟨nofun, nofun, nofun, nofun, nofun, nofun⟩
  | precharging hj =>
      simp only [memControlOut, rest]
      split_ifs with htimer
      · exact ⟨nofun, nofun, nofun, nofun, nofun, nofun⟩
      · exact ⟨nofun, fun _ => htimer, nofun, nofun, nofun, nofun⟩
  | @refresh k hk =>
      have hne : BitVec.ofNat 5 (8 - k) ≠ 0 := by
        rw [ne_eq, ofNat_eq_zero (by omega)]
        omega
      simp only [memControlOut, rest, if_pos hne]
      exact ⟨fun _ => (by decide : BitVec.ofNat 4 tRC ≠ 0), nofun, nofun, nofun, nofun, nofun⟩
  | @refreshing k j hk hj =>
      have hne : BitVec.ofNat 5 (8 - k) ≠ 0 := by
        rw [ne_eq, ofNat_eq_zero (by omega)]
        omega
      simp only [memControlOut, rest]
      split_ifs with htimer
      · exact ⟨nofun, nofun, nofun, nofun, nofun, fun _ => hne⟩
      · exact ⟨fun _ => htimer, nofun, nofun, nofun, nofun, nofun⟩
  | modeSet => exact ⟨nofun, nofun, fun _ => by decide, nofun, nofun, nofun⟩
  | settling hj =>
      simp only [memControlOut, rest]
      split_ifs with htimer
      · exact ⟨nofun, nofun, nofun, nofun, nofun, nofun⟩
      · exact ⟨nofun, nofun, fun _ => htimer, nofun, nofun, nofun⟩
  | ready hn hs _ =>
      rw [ready_out hs op]
      split_ifs
      all_goals exact ⟨nofun, nofun, nofun, nofun, nofun, nofun⟩

/-! ## Every run -/

/-- Command `c` is issued `k` cycles after reset. -/
def Issued (is : List MemControlIn) (k : Nat) (c : DramCommand) : Prop :=
  ∃ o, (outputs is)[k]? = some o ∧ o.command = c

/-- The commands of a run. -/
def commands (is : List MemControlIn) : List DramCommand := (outputs is).map (·.command)

/-- The commands before the first activation, without the idle ones. -/
def initialCommands (is : List MemControlIn) : List DramCommand :=
  ((commands is).takeWhile (· ≠ .act)).filter fun c => c ≠ .nop ∧ c ≠ .desl

/-- What the chip wants to see first. -/
def initSequence : List DramCommand := .pre :: List.replicate 8 .ref ++ [.mrs]

theorem issued_state {is : List MemControlIn} {k : Nat} {o : MemControlOut}
    (h : (outputs is)[k]? = some o) :
    ∃ s op, Scheduled k s ∧ o = memControlOut s op ∧ s = run next (is.take k) released := by
  rw [outputs, getElem?_trace, Option.map_eq_some_iff] at h
  obtain ⟨i, hi, rfl⟩ := h
  have hk : k < is.length := (List.getElem?_eq_some_iff.mp hi).1
  have hs := scheduled_run (is.take k) scheduled_released
  rw [List.length_take, Nat.min_eq_left (Nat.le_of_lt hk), Nat.zero_add] at hs
  exact ⟨_, i.op, hs, rfl, rfl⟩

theorem issued_cases {is : List MemControlIn} {k : Nat} {c : DramCommand} (h : Issued is k c) :
    k < readyAt ∧ c = planned k ∨ readyAt ≤ k ∧ (c = .act ∨ c = .nop ∨ c = .desl) := by
  obtain ⟨o, ho, rfl⟩ := h
  obtain ⟨s, op, hs, rfl, -⟩ := issued_state ho
  exact scheduled_command hs op

theorem issued_pre {is : List MemControlIn} {k : Nat} (h : Issued is k .pre) : k = tInit := by
  rcases issued_cases h with ⟨-, hc⟩ | ⟨-, hc⟩
  · exact planned_pre hc.symm
  · simp at hc

theorem issued_ref {is : List MemControlIn} {k : Nat} (h : Issued is k .ref) :
    ∃ r < 8, k = refAt r := by
  rcases issued_cases h with ⟨-, hc⟩ | ⟨-, hc⟩
  · exact planned_ref hc.symm
  · simp at hc

theorem issued_mrs {is : List MemControlIn} {k : Nat} (h : Issued is k .mrs) : k = mrsAt := by
  rcases issued_cases h with ⟨-, hc⟩ | ⟨-, hc⟩
  · exact planned_mrs hc.symm
  · simp at hc

theorem issued_act {is : List MemControlIn} {k : Nat} (h : Issued is k .act) : readyAt ≤ k := by
  rcases issued_cases h with ⟨-, hc⟩ | ⟨hk, -⟩
  · exact absurd hc.symm (planned_ne_act k)
  · exact hk

theorem refAt_lt {j k : Nat} (h : j < k) : refAt j + tRC < refAt k := by
  have hmul : (j + 1) * (tRC + 1) ≤ k * (tRC + 1) := Nat.mul_le_mul_right _ h
  rw [Nat.succ_mul] at hmul
  rw [refAt, refAt]
  omega

theorem refAt_lt_iff {j k : Nat} : refAt j < refAt k ↔ j < k := by
  constructor
  · intro h
    by_contra hge
    have hmul : k * (tRC + 1) ≤ j * (tRC + 1) := Nat.mul_le_mul_right _ (Nat.le_of_not_lt hge)
    rw [refAt, refAt] at h
    omega
  · exact fun h => Nat.lt_of_le_of_lt (Nat.le_add_right _ _) (refAt_lt h)

theorem length_commands (is : List MemControlIn) : (commands is).length = is.length := by
  rw [commands, List.length_map, outputs, length_trace]

theorem issued_of_getElem? {is : List MemControlIn} {k : Nat} {c : DramCommand}
    (h : (commands is)[k]? = some c) : Issued is k c := by
  rw [commands, List.getElem?_map, Option.map_eq_some_iff] at h
  exact h

/-- The commands up to `readyAt` are the planned ones. -/
theorem take_commands (is : List MemControlIn) :
    (commands is).take readyAt = (List.range (min readyAt is.length)).map planned := by
  refine List.ext_getElem? ?_
  intro k
  by_cases hk : k < min readyAt is.length
  · have hlen : k < (commands is).length := by rw [length_commands]; omega
    have hget : (commands is)[k]? = some (commands is)[k] := List.getElem?_eq_getElem hlen
    have hplan : (commands is)[k] = planned k := by
      rcases issued_cases (issued_of_getElem? hget) with ⟨-, hc⟩ | ⟨hge, -⟩
      · exact hc
      · omega
    rw [List.getElem?_take_of_lt (by omega), hget, hplan, List.getElem?_map,
      List.getElem?_range hk]
    rfl
  · rw [List.getElem?_eq_none, List.getElem?_eq_none]
    · rw [List.length_map, List.length_range]; omega
    · rw [List.length_take, length_commands]; omega

/-- After `readyAt` only requests are served. -/
theorem mem_drop_commands {is : List MemControlIn} {c : DramCommand}
    (h : c ∈ (commands is).drop readyAt) : c = .act ∨ c = .nop ∨ c = .desl := by
  obtain ⟨k, hk⟩ := List.mem_iff_getElem?.mp h
  rw [List.getElem?_drop] at hk
  rcases issued_cases (issued_of_getElem? hk) with ⟨hlt, -⟩ | ⟨-, hc⟩
  · omega
  · exact hc

/-- **The initial commands** are the planned ones. -/
theorem initialCommands_eq (is : List MemControlIn) :
    initialCommands is = ((List.range (min readyAt is.length)).map planned).filter
      fun c => c ≠ .nop ∧ c ≠ .desl := by
  have hplanned : ∀ c ∈ (commands is).take readyAt, decide (c ≠ .act) = true := by
    rw [take_commands]
    intro c hc
    obtain ⟨k, -, rfl⟩ := List.mem_map.mp hc
    exact decide_eq_true (planned_ne_act k)
  -- whatever follows before the first activation is idle
  have hidle : (((commands is).drop readyAt).takeWhile (· ≠ .act)).filter
      (fun c => c ≠ .nop ∧ c ≠ .desl) = [] := by
    rw [List.filter_eq_nil_iff]
    intro c hc
    have hact : c ≠ .act := by simpa using List.mem_takeWhile_imp hc
    rcases mem_drop_commands ((List.takeWhile_sublist _).mem hc) with rfl | rfl | rfl
    · exact absurd rfl hact
    · simp
    · simp
  rw [initialCommands, ← List.take_append_drop readyAt (commands is),
    List.takeWhile_append_of_pos hplanned, List.filter_append, hidle, List.append_nil,
    take_commands]

/-- Fewer cycles, fewer commands. -/
theorem planned_take {m n : Nat} (h : m ≤ n) :
    ((List.range m).map planned).filter (fun c => c ≠ .nop ∧ c ≠ .desl) <+:
      ((List.range n).map planned).filter (fun c => c ≠ .nop ∧ c ≠ .desl) := by
  have hrange : List.range m <+: List.range n := by
    rw [← Nat.add_sub_cancel' h, List.range_add]
    exact List.prefix_append _ _
  exact (hrange.map planned).filter _

theorem initialCommands_take (is : List MemControlIn) : initialCommands is <+: initSequence := by
  have hplan : ((List.range readyAt).map planned).filter (fun c => c ≠ .nop ∧ c ≠ .desl) =
      initSequence := by decide +kernel
  rw [initialCommands_eq, ← hplan]
  exact planned_take (Nat.min_le_left _ _)

/-- Nothing is missing once the mode register is set. -/
theorem initialCommands_complete {is : List MemControlIn} (h : mrsAt < is.length) :
    initialCommands is = initSequence := by
  have hplan : ((List.range (mrsAt + 1)).map planned).filter (fun c => c ≠ .nop ∧ c ≠ .desl) =
      initSequence := by decide +kernel
  have hlen : mrsAt + 1 ≤ min readyAt is.length := by
    have hready : mrsAt + 1 ≤ readyAt := Nat.add_le_add_right (Nat.le_add_right _ _) 1
    omega
  have hfull : initSequence <+: initialCommands is := by
    rw [initialCommands_eq, ← hplan]
    exact planned_take hlen
  exact (initialCommands_take is).eq_of_length
    (Nat.le_antisymm (initialCommands_take is).length_le hfull.length_le)

/-- What the chip asks of its controller during initialisation. -/
structure InitProtocol (is : List MemControlIn) : Prop where
  /-- Before the first activation: one PRE, then eight REF, then one MRS. -/
  order : initialCommands is <+: initSequence
  complete : .act ∈ commands is ∨ mrsAt < is.length → initialCommands is = initSequence
  preTime : ∀ k, Issued is k .pre → tInit ≤ k
  preRef : ∀ j k, Issued is j .pre → Issued is k .ref → j + tRP ≤ k
  refNext : ∀ j k, Issued is j .ref → Issued is k .ref ∨ Issued is k .mrs → j < k → j + tRC ≤ k
  mrsAct : ∀ j k, Issued is j .mrs → Issued is k .act → j + tMRD ≤ k
  /-- MRS and REF are never issued again. -/
  mrsLast : ∀ j k, Issued is j .mrs → Issued is k .ref ∨ Issued is k .mrs → k ≤ j
  actLast : ∀ j k, Issued is j .act → Issued is k .ref ∨ Issued is k .mrs → k < j
  modeRegister : ∀ (k : Nat) (o : MemControlOut), (outputs is)[k]? = some o → o.command = .mrs →
    o.dramAddr = modeRegister.extractLsb' 0 13 ∧ o.bank = modeRegister.extractLsb' 14 2
  /-- No timer is decremented when it is zero. -/
  timers : ∀ i, NoUnderflow (run next is released) (out i (run next is released))
  timerInit : ∀ i, (run next is released).timerInit = 0 →
    (next i (run next is released)).timerInit = 0

/-- **The SDRAM is initialised by the book**, whatever is requested meanwhile. -/
theorem sdram_init (is : List MemControlIn) : InitProtocol is := by
  have hmrsAct : mrsAt + tMRD < readyAt := Nat.lt_succ_self _
  have href : ∀ {k : Nat}, Issued is k .ref → k + tRC < mrsAt := by
    intro k hk
    obtain ⟨r, hr, rfl⟩ := issued_ref hk
    exact refAt_lt hr
  refine ⟨initialCommands_take is, fun h => ?_, ?_, ?_, ?_, ?_, ?_, ?_, ?_, ?_, ?_⟩
  · rcases h with hact | hlen
    · obtain ⟨k, hk⟩ := List.mem_iff_getElem?.mp hact
      have hge := issued_act (issued_of_getElem? hk)
      have hlt := (List.getElem?_eq_some_iff.mp hk).1
      rw [length_commands] at hlt
      exact initialCommands_complete (by omega)
    · exact initialCommands_complete hlen
  · exact fun k hk => Nat.le_of_eq (issued_pre hk).symm
  · intro j k hj hk
    obtain ⟨r, -, rfl⟩ := issued_ref hk
    rw [issued_pre hj, refAt]
    omega
  · intro j k hj hcmd hlt
    rcases hcmd with hk | hk
    · obtain ⟨r, -, rfl⟩ := issued_ref hj
      obtain ⟨r', -, rfl⟩ := issued_ref hk
      exact Nat.le_of_lt (refAt_lt (refAt_lt_iff.mp hlt))
    · rw [issued_mrs hk]
      exact Nat.le_of_lt (href hj)
  · intro j k hj hk
    have hge := issued_act hk
    rw [issued_mrs hj]
    omega
  · intro j k hj hcmd
    rcases hcmd with hk | hk
    · have hlt := href hk
      rw [issued_mrs hj]
      omega
    · rw [issued_mrs hj, issued_mrs hk]
  · intro j k hj hcmd
    rcases hcmd with hk | hk
    · have hge := issued_act hj
      have hlt := href hk
      omega
    · have hge := issued_act hj
      rw [issued_mrs hk]
      omega
  · intro k o ho hc
    obtain ⟨s, op, -, rfl, -⟩ := issued_state ho
    exact mrs_pins hc
  · intro i
    exact scheduled_noUnderflow (scheduled_run is scheduled_released) i.op
  · intro i hzero
    simp only [next, hzero, ne_eq, not_true_eq_false, if_false]

end MemControl

end PassiFlo
