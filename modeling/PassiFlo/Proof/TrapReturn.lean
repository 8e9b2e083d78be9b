import PassiFlo.Proof.Status

/-!
# Trap entry, handler, return

A trap clears MIE, and with MIE clear no exception is taken. So a handler runs with
the whole trap state frozen, whatever it executes and whatever the host does to it
meanwhile, until its `mret` or until it writes the trap CSRs itself. The first `mret`
then restores exactly what the entry saved.
-/

namespace PassiFlo

/-- `mret`, as `maindec` recognises it. -/
def IsMret (w : BitVec 32) : Prop :=
  opcode w = 0b1110011#7 ∧ funct3 w = 0b000#3 ∧ funct12 w = 0x302#12

/--
The CSR instructions that write CSR `a`: the swaps always do, the set and clear forms
only when their operand field is not zero.
-/
def WritesCsr (w : BitVec 32) (a : BitVec 12) : Prop :=
  opcode w = 0b1110011#7 ∧ funct12 w = a ∧ funct3 w ≠ 0b000#3 ∧ funct3 w ≠ 0b100#3 ∧
    ((funct3 w).extractLsb' 0 2 = 0b01#2 ∨ rs1 w ≠ 0)

instance (w : BitVec 32) : Decidable (IsMret w) := inferInstanceAs (Decidable (_ ∧ _ ∧ _))

instance (w : BitVec 32) (a : BitVec 12) : Decidable (WritesCsr w a) :=
  inferInstanceAs (Decidable (_ ∧ _ ∧ _ ∧ _ ∧ (_ ∨ _)))

namespace Core

variable {C : Chip} {i : Inputs} {s : State}

/-! ## CSR instructions -/

/-- The operand of a CSR instruction: the immediate generator's output, or `rs1`. -/
def csrOperand (s : State) (w : BitVec 32) : BitVec 64 :=
  if (funct3 w).getLsbD 2 then signext w else s.regs (rs1 w)

/-- The CSR ALU computes the three read-modify-write operations. -/
theorem atomAlu_csr {f3 : BitVec 3} (hf : f3.extractLsb' 0 2 ≠ 0) (operand old : BitVec 64) :
    (atomAlu operand old (aludecAtomic f3 0b10#2)).2 =
      if f3.extractLsb' 0 2 = 0b01#2 then operand
      else if f3.extractLsb' 0 2 = 0b10#2 then operand ||| old
      else ~~~operand &&& old := by
  have hcases : ∀ f : BitVec 3, f.extractLsb' 0 2 ≠ 0 → f = 0b001#3 ∨ f = 0b010#3 ∨ f = 0b011#3 ∨
      f = 0b101#3 ∨ f = 0b110#3 ∨ f = 0b111#3 := by decide
  rcases hcases f3 hf with rfl | rfl | rfl | rfl | rfl | rfl <;> rfl

/-- **What a CSR instruction writes.** -/
theorem csrIn_eq (h : coprocessorStall i s = false)
    (hop : opcode (instrMemText C s) = 0b1110011#7)
    (hf : (funct3 (instrMemText C s)).extractLsb' 0 2 ≠ 0) :
    csrIn C i s =
      if (funct3 (instrMemText C s)).extractLsb' 0 2 = 0b01#2 then csrOperand s (instrMemText C s)
      else if (funct3 (instrMemText C s)).extractLsb' 0 2 = 0b10#2 then
        csrOperand s (instrMemText C s) ||| csrDec 0 (funct12 (instrMemText C s)) (csrOut C s)
      else ~~~csrOperand s (instrMemText C s) &&&
        csrDec 0 (funct12 (instrMemText C s)) (csrOut C s) := by
  have hrow : (ctl C i s).toMainDec = csrRow ((funct3 (instrMemText C s)).getLsbD 2) := by
    rw [ctl_unstalled h, hop, maindec_csr hf]
  have halu : (ctl C i s).aluControl = aludecAtomic (funct3 (instrMemText C s)) 0b10#2 := by
    rw [ctl_aluControl, hrow]; rfl
  have hcsr : (dec C i s).csrRead = csrDec 0 (funct12 (instrMemText C s)) (csrOut C s) := by
    simp only [dec, decode, (stall_eq_false_iff.mp h).2.1, Bool.false_eq_true, if_false]
  have hoperand : (if (ctl C i s).aluSrc then (dec C i s).signImm else (dec C i s).readData1) =
      csrOperand s (instrMemText C s) := by
    have hjalr : opcode (instrMemText C s) ≠ 0b1100111#7 := by rw [hop]; decide
    have hsel : (ctl C i s).regSel.getLsbD 0 = false := by
      rw [hrow]; exact BitVec.getLsbD_zero
    have hsrc : (ctl C i s).aluSrc = (funct3 (instrMemText C s)).getLsbD 2 := by rw [hrow]; rfl
    simp only [dec, decode, csrOperand, hsel, hsrc, hjalr, if_false, Bool.false_eq_true]
  rw [csrIn, exec, execute, hoperand, hcsr, halu, atomAlu_csr hf]

/-! ## The handler -/

/-- A cycle of a handler: anything but a reset, an `mret` or a write to the trap CSRs. -/
structure HandlerCycle (C : Chip) (i : Inputs) (s : State) : Prop where
  reset : i.reset = false
  /-- Stalled cycles execute nothing. -/
  noReturn : coprocessorStall i s = false → ¬ IsMret (instrMemText C s)
  noCsrWrite : coprocessorStall i s = false →
    ∀ a ∈ [0x300#12, 0x341#12, 0x342#12], ¬ WritesCsr (instrMemText C s) a

/-- The trap state inside the handler of a trap taken at `pc` in mode `mode`. -/
structure InHandler (pc cause : BitVec 64) (mode : BitVec 2) (s : State) : Prop where
  mepc : s.mepc = pc
  mcause : s.mcause = cause
  mpp : s.mstatus.extractLsb' 11 2 = mode
  mpie : s.mstatus.getLsbD 7 = true
  mie : s.mstatus.getLsbD 3 = false
  mode : s.mode = 0b11#2

/-- What trap entry establishes. -/
theorem inHandler_entry (hr : i.reset = false) (ht : trapTrigger C i s ≠ 0) :
    InHandler s.pc (posedge C i s).mcause s.mode (posedge C i s) := by
  obtain ⟨h1, h2, h3⟩ := posedge_trap hr ht
  refine ⟨h3, rfl, ?_, ?_, ?_, h1⟩
  · rw [h2, mstatusMerge_mpp]
    refine BitVec.eq_of_getLsbD_eq ?_
    intro k hk
    simp only [BitVec.getLsbD_extractLsb', BitVec.getLsbD_append]
    interval_cases k <;> rfl
  · rw [h2, mstatusMerge_mpie]
    have hmie : s.mstatus.getLsbD 3 = true := (trapTrigger_ne_zero_iff.mp ht).1
    rw [hmie]
    simp only [BitVec.getLsbD_append]
    rfl
  · rw [h2, mstatusMerge_mie]
    simp only [BitVec.getLsbD_append]
    rfl

/-- An immediate of zero is zero, sign extended or not. -/
theorem signext_system_zero {w : BitVec 32} (hop : opcode w = 0b1110011#7) (h : rs1 w = 0) :
    signext w = 0 := by
  have hbit : w.getLsbD 19 = false := by
    have h4 : w.getLsbD 19 = (rs1 w).getLsbD 4 := by
      simp only [rs1, BitVec.getLsbD_extractLsb']; rfl
    rw [h4, h]; exact BitVec.getLsbD_zero
  have hform : signext w = rep 59 (w.getLsbD 19) ++ rs1 w := by
    unfold signext; rw [hop]; rfl
  rw [hform, hbit, h]
  decide

/-- A set or clear with operand zero writes back what it read. -/
theorem csrIn_of_not_writes (h : coprocessorStall i s = false) (h0 : s.regs 0 = 0)
    (hop : opcode (instrMemText C s) = 0b1110011#7)
    (hf : (funct3 (instrMemText C s)).extractLsb' 0 2 ≠ 0)
    (hw : ¬ WritesCsr (instrMemText C s) (funct12 (instrMemText C s))) :
    csrIn C i s = csrDec 0 (funct12 (instrMemText C s)) (csrOut C s) := by
  have hf0 : funct3 (instrMemText C s) ≠ 0b000#3 := fun h => hf (by rw [h]; decide)
  have hf4 : funct3 (instrMemText C s) ≠ 0b100#3 := fun h => hf (by rw [h]; decide)
  have hzero : ¬ ((funct3 (instrMemText C s)).extractLsb' 0 2 = 0b01#2 ∨
      rs1 (instrMemText C s) ≠ 0) := fun hc => hw ⟨hop, rfl, hf0, hf4, hc⟩
  rw [not_or, not_not] at hzero
  have hoperand : csrOperand s (instrMemText C s) = 0#64 := by
    unfold csrOperand
    rw [hzero.2, h0, signext_system_zero hop hzero.2, ite_self]
    rfl
  rw [csrIn_eq h hop hf, if_neg hzero.1, hoperand, BitVec.zero_or, BitVec.not_zero,
    BitVec.allOnes_and, ite_self]

/-- **The handler step.** -/
theorem inHandler_step {pc cause : BitVec 64} {mode : BitVec 2}
    (h : InHandler pc cause mode s) (h0 : s.regs 0 = 0) (hc : HandlerCycle C i s) :
    InHandler pc cause mode (posedge C i s) := by
  cases hst : coprocessorStall i s with
  | true =>
      rw [posedge_stalled hc.reset hst]
      exact ⟨h.mepc, h.mcause, h.mpp, h.mpie, h.mie, h.mode⟩
  | false =>
      -- MIE is clear, so no trap; and the instruction is no `mret`
      have ht : trapTrigger C i s = 0 := by
        rw [trapTrigger_eq, mie, h.mie]; rfl
      have hret : (ctl C i s).trapReturn = false := by
        rw [ctl_unstalled hst, Bool.eq_false_iff, ne_eq, maindec_trapReturn]
        exact hc.noReturn hst
      obtain ⟨h1, h2, h3, h4⟩ := posedge_noTrap hc.reset ht hret
      have hms : (posedge C i s).mstatus = s.mstatus := by
        rw [h4]
        split_ifs with hen
        · simp only [mstatusCSREnable, Bool.and_eq_true, beq_iff_eq, csrAddr, csrWriteEnable,
            ctl_unstalled hst, maindec_csrWriteEnable] at hen
          obtain ⟨ha, hop, hf⟩ := hen
          have hw : ¬ WritesCsr (instrMemText C s) (funct12 (instrMemText C s)) := by
            rw [ha]; exact hc.noCsrWrite hst _ (by simp)
          rw [csrIn_of_not_writes hst h0 hop hf hw, ha]
          exact mstatusMerge_privStack s.mstatus
        · rfl
      refine ⟨h3.trans h.mepc, h2.trans h.mcause, ?_, ?_, ?_, h1.trans h.mode⟩
      · rw [hms]; exact h.mpp
      · rw [hms]; exact h.mpie
      · rw [hms]; exact h.mie

/-- What the first `mret` does to the trap state of the handler. -/
theorem inHandler_mret {pc cause : BitVec 64} {mode : BitVec 2} (h : InHandler pc cause mode s)
    (hi : Unstalled i s) (hm : IsMret (instrMemText C s)) :
    (posedge C i s).pc = pc ∧ (posedge C i s).mode = mode ∧
      (posedge C i s).mstatus.getLsbD 3 = true ∧ (posedge C i s).mstatus.getLsbD 7 = true := by
  have ht : trapTrigger C i s = 0 := by rw [trapTrigger_eq, mie, h.mie]; rfl
  have hret : (ctl C i s).trapReturn = true := by
    rw [ctl_unstalled hi.stall, maindec_trapReturn]; exact hm
  obtain ⟨h1, h2⟩ := posedge_return hi.reset ht hret
  refine ⟨?_, h1.trans h.mpp, ?_, ?_⟩
  · rw [posedge_pc hi, ht, hret, if_neg (fun h => h rfl), if_pos rfl]; exact h.mepc
  · rw [h2, mstatusMerge_mie, h.mpie]; decide
  · rw [h2, mstatusMerge_mpie, h.mpie]; decide

/--
**Trap entry, handler, return.** From a trap taken at `s.pc` in mode `s.mode`, the
trap state is frozen for the whole handler, and its first `mret` restores what the
entry saved.
-/
theorem trap_handler_mret (hs : Reachable C s) (hi : Unstalled i s)
    (ht : trapTrigger C i s ≠ 0) (is : List Inputs)
    (hh : Along C (HandlerCycle C) is (cycle C i s)) :
    InHandler s.pc (cycle C i s).mcause s.mode (run C is (cycle C i s)) ∧
      ∀ j, Unstalled j (run C is (cycle C i s)) → IsMret (instrMemText C (run C is (cycle C i s))) →
        (cycle C j (run C is (cycle C i s))).pc = s.pc ∧
        (cycle C j (run C is (cycle C i s))).mode = s.mode ∧
        (cycle C j (run C is (cycle C i s))).mstatus.getLsbD 3 = true ∧
        (cycle C j (run C is (cycle C i s))).mstatus.getLsbD 7 = true := by
  have hentry : InHandler s.pc (cycle C i s).mcause s.mode (cycle C i s) := by
    rw [cycle_eq_posedge hi.reset]; exact inHandler_entry hi.reset ht
  have hrun := Clocked.run_preserves (P := HandlerCycle C)
    (I := fun t => t.regs 0 = 0 ∧ InHandler s.pc (cycle C i s).mcause s.mode t)
    (fun j t hj ht => by
      refine ⟨(regfileNext_zero _ _ _ _).trans ht.1, ?_⟩
      rw [cycle_eq_posedge hj.reset]
      exact inHandler_step ht.2 ht.1 hj)
    is (cycle C i s) hh ⟨regs_zero_reachable (hs.cycle i), hentry⟩
  refine ⟨hrun.2, fun j hj hm => ?_⟩
  rw [cycle_eq_posedge hj.reset]
  exact inHandler_mret hrun.2 hj hm

/-- Set `mtvec` and MIE, `ecall`; the handler is `addi x1, x1, 1` and `mret`. -/
def ecallProgram : List (BitVec 32) :=
  [0x30565073#32, 0x30045073#32, 0x00000073#32, 0x00108093#32, 0x30200073#32]

/-- The state of `ecallProgram` at its `ecall`. -/
def atEcall : State :=
  run (Chip.ofProgram ecallProgram) [Inputs.idle, Inputs.idle] (State.released (fun _ => 0) 0)

theorem trap_handler_mret_ecall :
    InHandler atEcall.pc 8 atEcall.mode (run (Chip.ofProgram ecallProgram) [Inputs.idle]
      (cycle (Chip.ofProgram ecallProgram) Inputs.idle atEcall)) ∧
    (run (Chip.ofProgram ecallProgram) [Inputs.idle, Inputs.idle, Inputs.idle] atEcall).pc =
      atEcall.pc := by
  have hcause : (cycle (Chip.ofProgram ecallProgram) Inputs.idle atEcall).mcause = 8 := by
    decide +kernel
  have h := trap_handler_mret (C := Chip.ofProgram ecallProgram) (i := Inputs.idle) (s := atEcall)
    ((reachable_released _ _ _).run _) ⟨rfl, by decide +kernel⟩ (by decide +kernel) [Inputs.idle]
    ⟨⟨rfl, fun _ => by decide +kernel, fun _ => by decide +kernel⟩, trivial⟩
  rw [hcause] at h
  exact ⟨h.1, (h.2 Inputs.idle ⟨rfl, by decide +kernel⟩ (by decide +kernel)).1⟩

end Core

end PassiFlo
