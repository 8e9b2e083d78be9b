import PassiFlo.Proof.LoadStore

/-!
# Fault injection

An injection cycle stalls the core and flips bits of one register. What every
experiment on the core rests on is that nothing else happens: the program sees a run
of plain steps, interrupted only by register flips, wherever the host puts them and
however long it pauses. The abstract machine here has exactly these two operations.
-/

namespace PassiFlo

open Clocked

namespace Core

variable {C : Chip} {i : Inputs} {s : State}

/-! ## The program's view -/

/-- The state without the stop count, which belongs to the host. -/
def program (s : State) : State := { s with cycleStallFlag := 0 }

theorem program_ext {s t : State} (hpc : s.pc = t.pc) (hregs : s.regs = t.regs)
    (hram : s.ram = t.ram) (hmode : s.mode = t.mode) (hmstatus : s.mstatus = t.mstatus)
    (hmcause : s.mcause = t.mcause) (hmtvec : s.mtvec = t.mtvec) (hmepc : s.mepc = t.mepc)
    (hcycles : s.cycles = t.cycles) (hebreak : s.ebreakFlag = t.ebreakFlag) :
    program s = program t := by
  simp only [program, hpc, hregs, hram, hmode, hmstatus, hmcause, hmtvec, hmepc, hcycles, hebreak]

/-- One step of the program: a cycle with all coprocessor controls at zero. -/
def step (C : Chip) (s : State) : State := cycle C Inputs.idle s

theorem idle_unstalled : Unstalled Inputs.idle s := ⟨rfl, stall_of_control rfl⟩

/-- **An unstalled cycle is a step.** Whatever is on the debug address and data lines. -/
theorem posedge_unstalled (hi : Unstalled i s) :
    program (posedge C i s) = program (posedge C Inputs.idle s) := by
  have hidle : Unstalled Inputs.idle s := idle_unstalled
  obtain ⟨-, hcsr, -⟩ := stall_eq_false_iff.mp hi.stall
  have hctl : ctl C i s = ctl C Inputs.idle s := by
    unfold ctl; rw [hi.stall, hidle.stall]
  have hexec : exec C i s = exec C Inputs.idle s := by
    simp only [exec, dec, decode, hctl, hcsr, (stall_eq_false_iff.mp hidle.stall).2.1,
      Bool.false_eq_true, if_false]
  have haddr : dmAddr C i s = dmAddr C Inputs.idle s := by rw [dmAddr, hexec]; rfl
  have hport : dmemPort C i s = dmemPort C Inputs.idle s := by
    rw [dmemPort_unstalled hi.stall, dmemPort_unstalled hidle.stall, haddr, hctl]
  have hdata : writeData3 C i s = writeData3 C Inputs.idle s := by
    simp only [writeData3, readDataMasked, readData, hctl, haddr, hport]
  have hexc : exceptSignal C i s = exceptSignal C Inputs.idle s := by
    rw [exceptSignal_eq, exceptSignal_eq, crosses, crosses, hctl, haddr]
  have hbrk : breakSrc C i s = breakSrc C Inputs.idle s := by
    simp only [breakSrc, exceptSignalE, hctl, haddr]
  have hregs : (posedge C i s).regs = (posedge C Inputs.idle s).regs := by
    rw [posedge_regs hi.stall, posedge_regs hidle.stall, hctl, hdata]
  have hcsr' : Inputs.idle.csrDB = false := (stall_eq_false_iff.mp hidle.stall).2.1
  have hr : Inputs.idle.reset = false := hidle.reset
  refine program_ext ?_ hregs ?_ ?_ ?_ ?_ ?_ ?_ ?_ ?_
  all_goals
    simp only [posedge, pcSrc, trapTrigger, mstatusCSREnable, csrIn, csrAddr, csrWriteEnable,
      hi.reset, hi.stall, hidle.stall, hctl, hexec, hport, hexc, hbrk, hcsr, hcsr', hr,
      Bool.false_and, Bool.or_false, Bool.false_eq_true, if_false]

theorem settle_idle : settle Inputs.idle s = program s :=
  settle_eq_clear rfl (by decide)

theorem step_program : step C (program s) = step C s := by
  rw [step, step, cycle, cycle, settle_idle, settle_idle]
  rfl

theorem program_step : program (step C s) = step C s := by
  have hflag : (step C s).cycleStallFlag = 0 := by
    simp only [step, cycle, posedge, show Inputs.idle.stopAt = false by decide, flopre, flopreInit,
      Bool.not_false, if_true]
  rw [program, ← hflag]

/-! ## The abstract machine -/

/-- What one cycle does to the program. -/
inductive Op
  /-- Execute the next instruction. -/
  | step
  /-- Flip the masked bits of a register. -/
  | flip (r : BitVec 5) (mask : BitVec 64)
  /-- Nothing. -/
  | skip
  deriving DecidableEq

/-- The abstract machine. -/
def Op.apply (C : Chip) (s : State) : Op → State
  | .step => Core.step C s
  | .flip r mask =>
      if r = 0 then s else { s with regs := Function.update s.regs r (s.regs r ^^^ mask) }
  | .skip => s

/-- The operation of a cycle. -/
def op (i : Inputs) (s : State) : Op :=
  if i.weDB then .flip (i.addr.extractLsb' 0 5) i.dataOut
  else if cycleStall i s then .skip
  else .step

/-- The cycles of an experiment: `coprocessorIOControl[3:0]` is 0000 or 0001. -/
structure Experiment (i : Inputs) : Prop where
  reset : i.reset = false
  memWe : i.memWe = false
  memRe : i.memRe = false
  csrDB : i.csrDB = false

instance (i : Inputs) : Decidable (Experiment i) :=
  decidable_of_iff (i.reset = false ∧ i.memWe = false ∧ i.memRe = false ∧ i.csrDB = false)
    ⟨fun ⟨h1, h2, h3, h4⟩ => ⟨h1, h2, h3, h4⟩, fun h => ⟨h.reset, h.memWe, h.memRe, h.csrDB⟩⟩

theorem Experiment.stall (hi : Experiment i) :
    coprocessorStall i s = (cycleStall i s || i.weDB) := by
  rw [coprocessorStall, hi.csrDB, hi.memRe, hi.memWe, Bool.or_false, Bool.or_false, Bool.or_false]

/-- A stalled cycle of an experiment flips what the host says and leaves the rest. -/
theorem posedge_experiment (hram : C.Altsyncram) (hi : Experiment i)
    (hst : coprocessorStall i s = true) :
    program (posedge C i s) = program { s with
      regs := regfileNext i.weDB (i.addr.extractLsb' 0 5)
        (s.regs (i.addr.extractLsb' 0 5) ^^^ i.dataOut) s.regs } := by
  obtain ⟨hrden, hwren⟩ := dmemPort_stalled (C := C) hst
  have hheld : C.ramClock s.ram (dmemPort C i s) = s.ram :=
    hram.clock_idle (hrden.trans hi.memRe) (hwren.trans hi.memWe)
  rw [posedge_stalled hi.reset hst, hheld, hi.csrDB]
  rfl

/-- **One cycle.** It acts on the program as the operation it shows. -/
theorem cycle_op (hram : C.Altsyncram) (hi : Experiment i) :
    program (cycle C i s) = (op i s).apply C (program s) := by
  rw [cycle_eq_posedge hi.reset]
  cases hdb : i.weDB with
  | true =>
      have hst : coprocessorStall i s = true := by rw [hi.stall, hdb, Bool.or_true]
      rw [posedge_experiment hram hi hst, op, hdb, if_pos rfl, Op.apply, regfileNext]
      by_cases h0 : i.addr.extractLsb' 0 5 = 0
      · rw [if_pos h0, h0]; rfl
      · rw [if_neg h0, if_pos (by simpa using h0)]; rfl
  | false =>
      cases hcs : cycleStall i s with
      | true =>
          have hst : coprocessorStall i s = true := by rw [hi.stall, hcs, Bool.true_or]
          rw [posedge_experiment hram hi hst, op, hdb, hcs]
          rfl
      | false =>
          have hst : coprocessorStall i s = false := by rw [hi.stall, hcs, hdb, Bool.or_false]
          rw [posedge_unstalled ⟨hi.reset, hst⟩, op, hdb, hcs]
          change _ = step C (program s)
          rw [step_program, ← program_step, step, cycle_eq_posedge rfl]

/-! ## Counting -/

/-- The steps among some operations. -/
def steps (ops : List Op) : Nat := ops.count .step

theorem steps_cons (o : Op) (ops : List Op) : steps (o :: ops) = steps [o] + steps ops := by
  rw [steps, ← List.singleton_append, List.count_append]
  rfl

theorem step_cycles : (step C s).cycles = s.cycles + 1 := by
  have hst : coprocessorStall Inputs.idle (program s) = false := idle_unstalled.stall
  simp only [step, cycle, posedge, settle_idle, hst, flopre, flopreInit]
  rfl

/-- Each step counts one on the cycle counter, and nothing else does. -/
theorem apply_cycles (o : Op) : (o.apply C s).cycles = s.cycles + BitVec.ofNat 64 (steps [o]) := by
  cases o with
  | step => exact step_cycles
  | flip r mask =>
      rw [show BitVec.ofNat 64 (steps [Op.flip r mask]) = 0#64 from rfl, BitVec.add_zero, Op.apply]
      split_ifs <;> rfl
  | skip => exact (BitVec.add_zero _).symm

theorem foldl_cycles (ops : List Op) :
    (ops.foldl (Op.apply C) s).cycles = s.cycles + BitVec.ofNat 64 (steps ops) := by
  induction ops generalizing s with
  | nil => exact (BitVec.add_zero _).symm
  | cons o ops ih =>
      rw [List.foldl_cons, ih, apply_cycles, steps_cons o ops, BitVec.ofNat_add, BitVec.add_assoc]

/-- The counter of the core itself. -/
theorem cycle_cycles (hram : C.Altsyncram) (hi : Experiment i) :
    (cycle C i s).cycles = s.cycles + BitVec.ofNat 64 (steps [op i s]) := by
  have h : (program (cycle C i s)).cycles = _ := congrArg State.cycles (cycle_op hram hi)
  rw [apply_cycles] at h
  exact h

theorem op_steps : steps [op i s] = if i.weDB = false ∧ cycleStall i s = false then 1 else 0 := by
  unfold op
  cases i.weDB <;> cases cycleStall i s <;> rfl

/-- The stall condition, with the stop enabled. -/
theorem cycleStall_iff (hstop : i.stopAt = true) :
    cycleStall i s = true ↔ s.cycles.toNat = s.cycleStallFlag.toNat := by
  rw [cycleStall, hstop, Bool.and_true, beq_iff_eq, ← BitVec.toNat_inj, eq_comm]

/-- With the stop enabled the stop count is held. -/
theorem cycle_stallFlag (hi : Experiment i) (hstop : i.stopAt = true) :
    (cycle C i s).cycleStallFlag = s.cycleStallFlag := by
  rw [cycle, settle_eq_self hi.reset hstop]
  simp only [posedge, hstop, hi.csrDB, flopre, flopreInit, Bool.not_true, Bool.and_false,
    Bool.false_and, Bool.false_eq_true, if_false]

/-- A run with the stop enabled makes every step it can until the count is reached. -/
theorem steps_until_stop (hram : C.Altsyncram) (is : List Inputs)
    (hexp : ∀ i ∈ is, Experiment i ∧ i.stopAt = true)
    (hle : s.cycles.toNat ≤ s.cycleStallFlag.toNat) :
    steps (trace (cycle C) op is s) =
        min (s.cycleStallFlag.toNat - s.cycles.toNat) (is.countP fun i => !i.weDB) ∧
      (run C is s).cycleStallFlag = s.cycleStallFlag ∧
      (run C is s).cycles.toNat = s.cycles.toNat + steps (trace (cycle C) op is s) := by
  induction is generalizing s with
  | nil => exact ⟨(Nat.min_zero _).symm, rfl, rfl⟩
  | cons i is ih =>
      obtain ⟨hi, hstop⟩ := hexp i (List.mem_cons_self ..)
      have hrest : ∀ j ∈ is, Experiment j ∧ j.stopAt = true :=
        fun j hj => hexp j (List.mem_cons_of_mem i hj)
      have hflag := cycle_stallFlag (C := C) (s := s) hi hstop
      have hcyc := cycle_cycles (s := s) hram hi
      have hcount : steps (trace (cycle C) op (i :: is) s) =
          steps [op i s] + steps (trace (cycle C) op is (cycle C i s)) := steps_cons _ _
      have hlt := s.cycleStallFlag.isLt
      -- the counter moves by one or not at all, and never past the stop count
      have hone : steps [op i s] =
          if i.weDB = false ∧ s.cycles.toNat < s.cycleStallFlag.toNat then 1 else 0 := by
        have hcs : cycleStall i s = false ↔ s.cycles.toNat < s.cycleStallFlag.toNat := by
          rw [Bool.eq_false_iff, ne_eq, cycleStall_iff hstop]; omega
        rw [op_steps]
        exact if_congr (and_congr_right fun _ => hcs) rfl rfl
      have hnext : (cycle C i s).cycles.toNat = s.cycles.toNat + steps [op i s] := by
        rw [hcyc, BitVec.toNat_add, BitVec.toNat_ofNat]
        split_ifs at hone with h
        · rw [hone, Nat.mod_eq_of_lt (a := 1) (by decide), Nat.mod_eq_of_lt (by omega)]
        · rw [hone, Nat.zero_mod, Nat.add_zero, Nat.mod_eq_of_lt (by omega)]
      obtain ⟨h1, h2, h3⟩ := ih hrest (s := cycle C i s) (by
        rw [hflag, hnext, hone]
        split_ifs <;> omega)
      rw [hflag, hnext] at h1
      refine ⟨?_, h2.trans hflag, ?_⟩
      · rw [hcount, h1, hone, List.countP_cons]
        rcases Bool.eq_false_or_eq_true i.weDB with hdb | hdb
        · simp only [hdb, Bool.true_eq_false, false_and, if_false, Bool.not_true,
            Bool.false_eq_true]
          omega
        · simp only [hdb, true_and, Bool.not_false, if_true]
          split_ifs <;> omega
      · exact h3.trans (by rw [hnext, hcount, Nat.add_assoc])

/--
**Injection refines register flips.** Seen by the program, an experiment is one step
for every cycle that is not stalled and one register flip for every injection cycle,
in that order, and nothing else. The cycle CSR counts the steps; and with the stop
count held from release, the core stalls exactly when that many steps are done.
-/
theorem injection_refines (hram : C.Altsyncram) (is : List Inputs) (s : State)
    (hexp : ∀ i ∈ is, Experiment i) (h0 : s.cycles = 0) :
    program (run C is s) = (trace (cycle C) op is s).foldl (Op.apply C) (program s) ∧
      (run C is s).cycles = BitVec.ofNat 64 (steps (trace (cycle C) op is s)) ∧
      ((∀ i ∈ is, i.stopAt = true) →
        steps (trace (cycle C) op is s) =
          min s.cycleStallFlag.toNat (is.countP fun i => !i.weDB) ∧
        ∀ j, j.stopAt = true → (cycleStall j (run C is s) = true ↔
          steps (trace (cycle C) op is s) = s.cycleStallFlag.toNat)) := by
  have hrun : program (run C is s) = (trace (cycle C) op is s).foldl (Op.apply C) (program s) :=
    run_refines (fun i t hi => cycle_op hram hi) is s (along_of_forall is s hexp)
  refine ⟨hrun, ?_, fun hstop => ?_⟩
  · have h := congrArg State.cycles hrun
    rw [foldl_cycles] at h
    refine h.trans ?_
    rw [show (program s).cycles = 0#64 from h0, BitVec.zero_add]
  · have hz : s.cycles.toNat = 0 := by rw [h0]; rfl
    obtain ⟨h1, h2, h3⟩ := steps_until_stop hram is (s := s)
      (fun i hi => ⟨hexp i hi, hstop i hi⟩) (by omega)
    rw [hz, Nat.sub_zero] at h1
    refine ⟨h1, fun j hj => ?_⟩
    rw [cycleStall_iff hj, h2, h3, hz, Nat.zero_add]

/-- Two `addi x1, x1, 1`. -/
def countTwice : Chip := Chip.ofProgram [0x00108093#32, 0x00108093#32]

/-- A flip of bit 2 of `x1` between the two, and a stop after them. -/
def flipBetween : List Inputs :=
  [{ Inputs.idle with control := 0b10000#5 },
   { Inputs.idle with control := 0b10001#5, addr := 1, dataOut := 4 },
   { Inputs.idle with control := 0b10000#5 }, { Inputs.idle with control := 0b10000#5 }]

theorem injection_refines_flip :
    program (run countTwice flipBetween
        { State.released (fun _ => 0) 0 with cycleStallFlag := 2 }) =
      [Op.step, Op.flip 1 4, Op.step, Op.skip].foldl (Op.apply countTwice)
        (State.released (fun _ => 0) 0) := by
  have h := (injection_refines (C := countTwice) (Chip.ofProgram_altsyncram _) flipBetween
    { State.released (fun _ => 0) 0 with cycleStallFlag := 2 } (by decide +kernel) rfl).1
  rw [h]
  have htrace : trace (cycle countTwice) op flipBetween
      { State.released (fun _ => 0) 0 with cycleStallFlag := 2 } =
        [Op.step, Op.flip 1 4, Op.step, Op.skip] := by decide +kernel
  rw [htrace]
  rfl

end Core

end PassiFlo
