import PassiFlo.Rtl.Run
import PassiFlo.Isa.Semantics
import PassiFlo.Proof.Decoding

/-!
# What one clock cycle can do

The rest of the development never unfolds the core. This file says once what each
kind of cycle does: a stalled cycle freezes everything but what the host asks for,
an exception-raising instruction is inert apart from the trap, and so on.
-/

namespace PassiFlo

namespace Core

variable {C : Chip} {i : Inputs} {s : State}

/-- An instruction is executed: the core is out of reset and nothing stalls it. -/
structure Unstalled (i : Inputs) (s : State) : Prop where
  reset : i.reset = false
  stall : coprocessorStall i s = false

/-! ## Settling -/

theorem settle_eq_self (hr : i.reset = false) (hc : i.stopAt = true) :
    settle i s = s := by
  simp only [settle, hr, hc, Bool.false_eq_true, if_false, if_true]

theorem settle_eq_clear (hr : i.reset = false) (hc : i.stopAt = false) :
    settle i s = { s with cycleStallFlag := 0 } := by
  simp only [settle, hr, hc, Bool.false_eq_true, if_false]

/-- Without a reset, the asynchronous clear of the stop count has no other effect. -/
theorem cycle_eq_posedge (hr : i.reset = false) : cycle C i s = posedge C i s := by
  cases hc : i.stopAt with
  | true => rw [cycle, settle_eq_self hr hc]
  | false =>
      rw [cycle, settle_eq_clear hr hc]
      have hst : coprocessorStall i { s with cycleStallFlag := 0 } = coprocessorStall i s := by
        simp only [coprocessorStall, cycleStall, hc, Bool.and_false]
      have hctl : ctl C i { s with cycleStallFlag := 0 } = ctl C i s := by
        unfold ctl; rw [hst]; rfl
      have hdec : dec C i { s with cycleStallFlag := 0 } = dec C i s := by
        unfold dec; rw [hctl]; rfl
      have hexec : exec C i { s with cycleStallFlag := 0 } = exec C i s := by
        unfold exec; rw [hctl, hdec]
      simp only [posedge, pcSrc, trapTrigger, exceptSignal, exceptSignalF, exceptSignalE, dmAddr,
        mie, instrMemText, writeData3, readDataMasked, readData, dmemPort, dmWriteData,
        dmReadEnable, dmWriteEnable, mstatusCSREnable, csrIn, csrAddr, csrWriteEnable, breakSrc,
        hst, hctl, hdec, hexec, hc, flopre, flopreInit, Bool.not_false, if_true]

/-! ## Exceptions -/

/-- The exception vector, from the three decoder bits and the two misalignments. -/
def exceptBits (d : BitVec 3) (store load : Bool) : BitVec 16 :=
  packExcept 0 d (0b0000#4 ++ BitVec.ofBool store ++ 0#1 ++ BitVec.ofBool load)

theorem exceptBits_eq_zero : ∀ (d : BitVec 3) (store load : Bool),
    exceptBits d store load = 0 ↔ d = 0 ∧ store = false ∧ load = false := by
  decide

/-- The access of the instruction leaves its 8-byte word. -/
def crosses (C : Chip) (i : Inputs) (s : State) : Bool :=
  alignDetect ((dmAddr C i s).extractLsb' 0 3) (ctl C i s).memWidth

theorem exceptSignal_eq : exceptSignal C i s = exceptBits (ctl C i s).exceptSignal
    (crosses C i s && (ctl C i s).memWrite) (crosses C i s && (ctl C i s).memRead.getLsbD 0) := by
  have h1 : ∀ (b : Bool) (m : BitVec 2), (BitVec.ofBool b ++ m.extractLsb' 0 1).getLsbD 1 = b := by
    decide
  have h0 : ∀ (b : Bool) (m : BitVec 2),
      (BitVec.ofBool b ++ m.extractLsb' 0 1).getLsbD 0 = m.getLsbD 0 := by decide
  simp only [exceptSignal, exceptSignalF, exceptF, exceptSignalE, exceptE, crosses, exceptBits, h0,
    h1]
  rfl

theorem trapTrigger_eq : trapTrigger C i s = if mie s then exceptSignal C i s else 0 := by
  unfold trapTrigger ExceptController.trapTrigger
  cases mie s with
  | false => rw [show rep 16 false = 0#16 by decide, BitVec.zero_and]; rfl
  | true => rw [show rep 16 true = BitVec.allOnes 16 by decide, BitVec.allOnes_and]; rfl

/-- A trap is taken exactly when interrupts are enabled and an exception is raised. -/
theorem trapTrigger_ne_zero_iff :
    trapTrigger C i s ≠ 0 ↔ mie s = true ∧ exceptSignal C i s ≠ 0 := by
  rw [trapTrigger_eq]
  cases mie s <;> simp

theorem exceptCSREnable_eq :
    ExceptController.exceptCSREnable (mie s) (exceptSignal C i s) = (trapTrigger C i s != 0) := by
  rw [trapTrigger_eq, ExceptController.exceptCSREnable]
  cases mie s <;> rfl

/-! ## Stalled cycles -/

/-- What the controller says while the core is stalled. -/
def offControl : Control :=
  { MainDec.ofBits 0 with aluControl := 0b0010#4, breakSrc := false }

theorem ctl_stalled (h : coprocessorStall i s = true) : ctl C i s = offControl := by
  have hop : (MainDec.ofBits 0).aluOp = 0 := by decide
  have haludec : ∀ f7 f3, aludec f7 f3 0 = 0b0010#4 := fun _ _ => rfl
  simp only [ctl, controller, maindec, maindecOutput, h, if_true, hop, haludec]
  rfl

theorem exceptSignal_stalled (h : coprocessorStall i s = true) : exceptSignal C i s = 0 := by
  rw [exceptSignal_eq, ctl_stalled h, exceptBits_eq_zero]
  exact ⟨rfl, Bool.and_false _, Bool.and_false _⟩

theorem trapTrigger_stalled (h : coprocessorStall i s = true) : trapTrigger C i s = 0 := by
  rw [trapTrigger_eq, exceptSignal_stalled h, ite_self]

/--
**A stalled cycle.** Only the register the host selects, the port of the RAM and the
two debug registers can move.
-/
theorem posedge_stalled (hr : i.reset = false) (h : coprocessorStall i s = true) :
    posedge C i s = { s with
      regs := regfileNext i.weDB (i.addr.extractLsb' 0 5)
        (s.regs (i.addr.extractLsb' 0 5) ^^^ i.dataOut) s.regs
      ram := C.ramClock s.ram (dmemPort C i s)
      cycleStallFlag := flopre (!i.stopAt) (i.stopAt && i.csrDB && i.addr.getLsbD 12) i.dataOut
        s.cycleStallFlag
      ebreakFlag := flopre false (i.csrDB && i.addr.getLsbD 12 && i.addr.getLsbD 0)
        (if i.csrDB then i.dataOut.extractLsb' 0 1 else 0) s.ebreakFlag } := by
  have hregs : (posedge C i s).regs = regfileNext i.weDB (i.addr.extractLsb' 0 5)
      (s.regs (i.addr.extractLsb' 0 5) ^^^ i.dataOut) s.regs := by
    simp only [posedge, ctl_stalled h]
    cases hw : i.weDB <;> rfl
  rw [← hregs]
  simp only [posedge, ctl_stalled h, trapTrigger_stalled h, exceptSignal_stalled h, hr, h]
  simp [fetchNext, flopre, flopreInit, CoreStatus.modeNext, CoreStatus.mstatusNext,
    ExceptController.mcauseNext, ExceptController.mepcNext, ExceptController.mtvecNext,
    ExceptController.exceptCSREnable, mstatusCSREnable, csrWriteEnable, ctl_stalled h, offControl,
    MainDec.ofBits]

/-! ## Traps and returns -/

/-- **Trap entry.** -/
theorem posedge_trap (hr : i.reset = false) (ht : trapTrigger C i s ≠ 0) :
    (posedge C i s).mode = 0b11#2 ∧
      (posedge C i s).mstatus =
        mstatusMerge s.mstatus (s.mode ++ BitVec.ofBool (s.mstatus.getLsbD 3) ++ 0#1) ∧
      (posedge C i s).mepc = s.pc := by
  have hne : (trapTrigger C i s != 0) = true := by simpa using ht
  refine ⟨?_, ?_, ?_⟩
  · simp only [posedge, CoreStatus.modeNext, flopreInit, hr, hne, Bool.true_or, if_true, ht,
      Bool.false_eq_true, if_false, ne_eq, not_false_eq_true]
  · simp only [posedge, CoreStatus.mstatusNext, CoreStatus.stackNext, flopreInit, hr, hne,
      Bool.true_or, if_true, ht, Bool.false_eq_true, if_false, ne_eq, not_false_eq_true]
  · simp only [posedge, ExceptController.mepcNext, exceptCSREnable_eq, flopre, flopreInit, hr, hne,
      Bool.false_eq_true, if_false, if_true]

/-- **Trap return.** -/
theorem posedge_return (hr : i.reset = false) (ht : trapTrigger C i s = 0)
    (hret : (ctl C i s).trapReturn = true) :
    (posedge C i s).mode = s.mstatus.extractLsb' 11 2 ∧
      (posedge C i s).mstatus =
        mstatusMerge s.mstatus (0b00#2 ++ 1#1 ++ BitVec.ofBool (s.mstatus.getLsbD 7)) := by
  constructor
  · simp only [posedge, CoreStatus.modeNext, flopreInit, hr, ht, hret, Bool.or_true, if_true,
      Bool.false_eq_true, if_false, ne_eq, not_true_eq_false]
  · simp only [posedge, CoreStatus.mstatusNext, CoreStatus.stackNext, flopreInit, hr, ht, hret,
      Bool.or_true, Bool.true_or, if_true, Bool.false_eq_true, if_false, ne_eq, not_true_eq_false]

/-- **Neither.** The trap CSRs rest, except for a CSR write to `mstatus`. -/
theorem posedge_noTrap (hr : i.reset = false) (ht : trapTrigger C i s = 0)
    (hret : (ctl C i s).trapReturn = false) :
    (posedge C i s).mode = s.mode ∧ (posedge C i s).mcause = s.mcause ∧
      (posedge C i s).mepc = s.mepc ∧
      (posedge C i s).mstatus =
        if mstatusCSREnable C i s then mstatusMerge s.mstatus (privStack (csrIn C i s))
        else s.mstatus := by
  have hne : (trapTrigger C i s != 0) = false := by simpa using ht
  refine ⟨?_, ?_, ?_, ?_⟩
  · simp only [posedge, CoreStatus.modeNext, flopreInit, hr, hne, hret, Bool.or_false,
      Bool.false_eq_true, if_false]
  · simp only [posedge, ExceptController.mcauseNext, exceptCSREnable_eq, flopre, flopreInit, hr,
      hne, Bool.false_eq_true, if_false]
  · simp only [posedge, ExceptController.mepcNext, exceptCSREnable_eq, flopre, flopreInit, hr, hne,
      Bool.false_eq_true, if_false]
  · simp only [posedge, CoreStatus.mstatusNext, CoreStatus.stackNext, flopreInit, hr, hret, ht,
      Bool.false_eq_true, if_false, ne_eq, not_true_eq_false]
    cases mstatusCSREnable C i s <;> rfl

/-- Where the PC goes when nothing stalls. -/
theorem posedge_pc (h : Unstalled i s) :
    (posedge C i s).pc =
      if trapTrigger C i s ≠ 0 then s.mtvec.extractLsb' 2 62 ++ 0#2
      else if (ctl C i s).trapReturn then s.mepc
      else if pcSrc C i s then (exec C i s).pcBranch else s.pc + 4 := by
  simp only [posedge, fetchNext, flopre, flopreInit, h.reset, h.stall, Bool.not_false, if_true,
    Bool.false_eq_true, if_false, bne_iff_ne]

/-! ## Unstalled cycles -/

theorem ctl_unstalled (h : coprocessorStall i s = false) :
    (ctl C i s).toMainDec = maindec false (opcode (instrMemText C s)) (funct3 (instrMemText C s))
      (funct12 (instrMemText C s)) := by
  unfold ctl; rw [h]; rfl

theorem ctl_aluControl : (ctl C i s).aluControl =
    if (ctl C i s).aluSelect then aludecAtomic (funct3 (instrMemText C s)) (ctl C i s).aluOp
    else aludec ((funct12 (instrMemText C s)).extractLsb' 5 7) (funct3 (instrMemText C s))
      (ctl C i s).aluOp := rfl

/-- An unstalled cycle has none of the host's four requests up. -/
theorem stall_eq_false_iff : coprocessorStall i s = false ↔
    cycleStall i s = false ∧ i.csrDB = false ∧ i.memRe = false ∧ i.memWe = false ∧
      i.weDB = false := by
  simp only [coprocessorStall, Bool.or_eq_false_iff, and_assoc]

/-- What an unstalled cycle writes to the register file. -/
theorem posedge_regs (h : coprocessorStall i s = false) :
    (posedge C i s).regs = regfileNext (ctl C i s).regWrite (rd (instrMemText C s))
      (if (ctl C i s).branch = 0b111#3 then s.pc + 4 else writeData3 C i s) s.regs := by
  obtain ⟨-, -, -, -, hw⟩ := stall_eq_false_iff.mp h
  simp only [posedge, decodeNext, hw, Bool.or_false, Bool.false_eq_true, if_false]
  rfl

/--
**An instruction that raises nothing.** Everything it can do, other than a trap return:
move the PC, write a register, use the RAM, write `mstatus` or `mtvec`.
-/
theorem posedge_noExcept (hi : Unstalled i s) (hexc : exceptSignal C i s = 0)
    (hret : (ctl C i s).trapReturn = false) :
    posedge C i s = { s with
      pc := if pcSrc C i s then (exec C i s).pcBranch else s.pc + 4
      regs := regfileNext (ctl C i s).regWrite (rd (instrMemText C s))
        (if (ctl C i s).branch = 0b111#3 then s.pc + 4 else writeData3 C i s) s.regs
      ram := C.ramClock s.ram (dmemPort C i s)
      mstatus := if mstatusCSREnable C i s then mstatusMerge s.mstatus (privStack (csrIn C i s))
        else s.mstatus
      mtvec := ExceptController.mtvecNext false (csrWriteEnable C i s) (csrAddr C s) (csrIn C i s)
        s.mtvec
      cycles := s.cycles + 1
      cycleStallFlag := flopre (!i.stopAt) false i.dataOut s.cycleStallFlag } := by
  have ht : trapTrigger C i s = 0 := by rw [trapTrigger_eq, hexc, ite_self]
  have hdb := (stall_eq_false_iff.mp hi.stall).2.1
  have hexd : (ctl C i s).exceptSignal = 0#3 := by
    rw [exceptSignal_eq, exceptBits_eq_zero] at hexc
    exact hexc.1
  have hpc : (posedge C i s).pc = if pcSrc C i s then (exec C i s).pcBranch else s.pc + 4 := by
    rw [posedge_pc hi, ht, hret, if_neg (fun h => h rfl), if_neg Bool.false_ne_true]
  obtain ⟨h1, h2, h3, h4⟩ := posedge_noTrap hi.reset ht hret
  refine State.ext hpc (posedge_regs hi.stall) rfl h1 h4 h2 ?_ h3 ?_ ?_ ?_
  · simp only [posedge, hi.reset]
  · simp only [posedge, hi.reset, hi.stall, flopre, flopreInit, Bool.not_false, Bool.false_eq_true,
      if_false, if_true]
  · simp only [posedge, hdb, Bool.and_false, Bool.false_and]
  · simp only [posedge, hexd, hdb, hi.reset, flopre, flopreInit, Bool.false_and, Bool.or_false,
      BitVec.getLsbD_zero, Bool.false_eq_true, if_false]

/-- With all coprocessor controls at zero nothing stalls. -/
theorem stall_of_control (h : i.control = 0) : coprocessorStall i s = false := by
  have hbit : ∀ k, i.control.getLsbD k = false := fun k => by rw [h]; exact BitVec.getLsbD_zero
  exact stall_eq_false_iff.mpr
    ⟨by rw [cycleStall, Inputs.stopAt, hbit, Bool.and_false], hbit 3, hbit 2, hbit 1, hbit 0⟩

/-- A register write leaves `x0` and the other registers alone. -/
theorem regfileNext_of_ne (we : Bool) {wa r : BitVec 5} (h : r ≠ wa ∨ r = 0) (wd : BitVec 64)
    (regs : BitVec 5 → BitVec 64) : regfileNext we wa wd regs r = regs r := by
  unfold regfileNext
  split_ifs with hw
  · have hwa : wa ≠ 0 := by simp_all
    have hne : r ≠ wa := by
      rcases h with h | h
      · exact h
      · rw [h]; exact hwa.symm
    exact Function.update_of_ne hne _ _
  · rfl

theorem regfileNext_zero (we : Bool) (wa : BitVec 5) (wd : BitVec 64)
    (regs : BitVec 5 → BitVec 64) : regfileNext we wa wd regs 0 = regs 0 :=
  regfileNext_of_ne we (.inr rfl) wd regs

/-- A register write that changes nothing. -/
theorem regfileNext_eq_self_iff (wa : BitVec 5) (wd : BitVec 64) (regs : BitVec 5 → BitVec 64) :
    regfileNext true wa wd regs = regs ↔ wa = 0 ∨ wd = regs wa := by
  unfold regfileNext
  by_cases h : wa = 0
  · subst h; simp
  · rw [if_pos (by simpa using h), Function.update_eq_self_iff, or_iff_right h]

/-- The write port does what the instruction set asks of a register write. -/
theorem regfileNext_eq_writeReg (wa : BitVec 5) (wd : BitVec 64) (regs : BitVec 5 → BitVec 64) :
    regfileNext true wa wd regs = Isa.writeReg wa wd regs := by
  unfold regfileNext Isa.writeReg
  by_cases h : wa = 0 <;> simp [h]

/-- `x0` is hard-wired. -/
theorem regs_zero_reachable (h : Reachable C s) : s.regs 0 = 0 := by
  induction h with
  | powerUp hp _ => exact congrFun hp 0
  | settle i _ ih => exact ih
  | cycle i _ ih => exact (regfileNext_zero _ _ _ _).trans ih

end Core

end PassiFlo
