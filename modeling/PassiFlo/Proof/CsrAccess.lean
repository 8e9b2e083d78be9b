import PassiFlo.Proof.TrapReturn
import PassiFlo.Isa.Encoding
import PassiFlo.Isa.Semantics

/-!
# Reading and writing CSRs

A CSR instruction reads the old value into `rd` and merges what it computes into the
writable bits; both merging schemes of the core come to the same masked write. The
operand is where it departs from the instruction set: the immediate generator sign
extends the 5-bit immediate, so one with its top bit set reaches the fields above.
-/

namespace PassiFlo

open Isa

/-! ## Masked writes -/

/-- `x` in the bits of `mask`, `old` elsewhere. -/
def maskedWrite (mask old x : BitVec 64) : BitVec 64 := old &&& ~~~mask ||| x &&& mask

theorem maskedWrite_getLsbD (mask old x : BitVec 64) {k : Nat} (hk : k < 64) :
    (maskedWrite mask old x).getLsbD k = if mask.getLsbD k then x.getLsbD k else old.getLsbD k := by
  simp only [maskedWrite, BitVec.getLsbD_or, BitVec.getLsbD_and, BitVec.getLsbD_not, hk,
    decide_true, Bool.true_and]
  cases mask.getLsbD k <;> simp

theorem maskedWrite_frame (mask old x : BitVec 64) :
    maskedWrite mask old x &&& ~~~mask = old &&& ~~~mask := by
  refine BitVec.eq_of_getLsbD_eq ?_
  intro k hk
  rw [BitVec.getLsbD_and, BitVec.getLsbD_and, maskedWrite_getLsbD _ _ _ hk, BitVec.getLsbD_not]
  cases mask.getLsbD k <;> simp

/-- Reassembling `mstatus` from slices is a masked write. -/
theorem mstatusMerge_privStack_eq (m x : BitVec 64) :
    mstatusMerge m (privStack x) = maskedWrite mstatusMask m x := by
  refine BitVec.eq_of_getLsbD_eq ?_
  intro k hk
  rw [maskedWrite_getLsbD _ _ _ hk, mstatusMerge_getLsbD m _ hk, mstatusMask_getLsbD hk]
  by_cases hbit : k = 3 ∨ k = 7 ∨ k = 11 ∨ k = 12
  · rcases hbit with rfl | rfl | rfl | rfl
    · exact privStack_mie x
    · exact privStack_mpie x
    · exact privStack_mpp x (k := 0) (by decide)
    · exact privStack_mpp x (k := 1) (by decide)
  · simp only [not_or] at hbit
    simp [hbit]

theorem mtvecMask_getLsbD {k : Nat} (hk : k < 64) :
    ExceptController.mtvecMask.getLsbD k = decide (2 ≤ k ∧ k < 24) := by
  interval_cases k <;> rfl

/-! ## The fields of a CSR instruction -/

namespace Isa

variable (o : CsrOp) (d r : BitVec 5) (a : BitVec 12)

theorem opcode_csr : opcode (Instr.csr o d r a).encode = 0b1110011#7 := opcode_word _ _ _ _ _

theorem rd_csr : rd (Instr.csr o d r a).encode = d := rd_word _ _ _ _ _

theorem rs1_csr : rs1 (Instr.csr o d r a).encode = r := rs1_word _ _ _ _ _

theorem funct3_csr : funct3 (Instr.csr o d r a).encode = o.funct3 := funct3_word _ _ _ _ _

theorem funct12_csr : funct12 (Instr.csr o d r a).encode = a := funct12_word _ _ _ _ _

theorem CsrOp.funct3_low : ∀ o : CsrOp, o.funct3.extractLsb' 0 2 ≠ 0 := by decide

theorem CsrOp.funct3_immediate : ∀ o : CsrOp, o.funct3.getLsbD 2 = o.immediate := by decide

/-- The decoder's CSR instructions are those of the instruction set. -/
theorem exists_csr {w : BitVec 32} (hop : opcode w = 0b1110011#7)
    (hf : (funct3 w).extractLsb' 0 2 ≠ 0) :
    ∃ o, w = (Instr.csr o (rd w) (rs1 w) (funct12 w)).encode := by
  obtain ⟨o, ho⟩ := (CsrOp.exists_funct3 _).mpr hf
  exact ⟨o, by rw [Instr.encode, ho, ← hop, word_fields]⟩

end Isa

/-- The operand as the core sees it: a register, or the sign-extended immediate. -/
def seenOperand (regs : BitVec 5 → BitVec 64) (rs1 : BitVec 5) (o : CsrOp) : BitVec 64 :=
  if o.immediate then rs1.signExtend 64 else regs rs1

namespace Core

variable {C : Chip} {i : Inputs} {s : State} {o : CsrOp} {d r : BitVec 5} {a : BitVec 12}

/-- The immediate generator sign extends the immediate of a CSR instruction. -/
theorem signext_csr : signext (Instr.csr o d r a).encode = r.signExtend 64 := by
  have hbit : (Instr.csr o d r a).encode.getLsbD 19 = r.getLsbD (5 - 1) :=
    calc (Instr.csr o d r a).encode.getLsbD 19
        = (rs1 (Instr.csr o d r a).encode).getLsbD (5 - 1) := by
          rw [rs1, BitVec.getLsbD_extractLsb']; rfl
      _ = r.getLsbD (5 - 1) := by rw [rs1_csr]
  have hform : signext (Instr.csr o d r a).encode =
      rep 59 ((Instr.csr o d r a).encode.getLsbD 19) ++ rs1 (Instr.csr o d r a).encode := by
    unfold signext
    rw [opcode_csr]
    rfl
  rw [hform, hbit, rs1_csr]
  exact rep_append_eq_signExtend r

/-- **What a CSR instruction writes**, in the terms of the instruction set. -/
theorem csrIn_csr (h : coprocessorStall i s = false)
    (hw : instrMemText C s = (Instr.csr o d r a).encode) :
    csrIn C i s = o.eval (seenOperand s.regs r o) (csrDec 0 a (csrOut C s)) := by
  have hoperand : csrOperand s (instrMemText C s) = seenOperand s.regs r o := by
    rw [csrOperand, hw, funct3_csr, CsrOp.funct3_immediate, signext_csr, rs1_csr]
    rfl
  rw [csrIn_eq h (by rw [hw, opcode_csr]) (by rw [hw, funct3_csr]; exact CsrOp.funct3_low o),
    hoperand, hw, funct3_csr, funct12_csr]
  cases o
  case csrrw | csrrwi => rfl
  case csrrs | csrrsi => exact BitVec.or_comm _ _
  case csrrc | csrrci => exact BitVec.and_comm _ _

theorem ctl_csr (h : coprocessorStall i s = false)
    (hw : instrMemText C s = (Instr.csr o d r a).encode) :
    (ctl C i s).toMainDec = csrRow o.immediate := by
  rw [ctl_unstalled h, hw, opcode_csr, funct3_csr, maindec_csr (CsrOp.funct3_low o),
    CsrOp.funct3_immediate]

/-- What a CSR instruction reads: the first output of the CSR ALU. -/
theorem dmAddr_csr (h : coprocessorStall i s = false)
    (hw : instrMemText C s = (Instr.csr o d r a).encode) :
    dmAddr C i s = csrDec 0 a (csrOut C s) := by
  have hrow := ctl_csr h hw
  have hread : (dec C i s).csrRead = csrDec 0 a (csrOut C s) := by
    simp only [dec, decode, (stall_eq_false_iff.mp h).2.1, Bool.false_eq_true, if_false, hw,
      funct12_csr]
  have halu : (ctl C i s).aluControl = aludecAtomic o.funct3 0b10#2 := by
    rw [ctl_aluControl, hrow, hw, funct3_csr]; rfl
  have hsel : (ctl C i s).aluSelect = true := by rw [hrow]; rfl
  have hatom : ∀ (o : CsrOp) (x y : BitVec 64),
      (atomAlu x y (aludecAtomic o.funct3 0b10#2)).1 = y := by
    intro o x y
    cases o <;> rfl
  rw [dmAddr, exec, execute, hsel, if_pos rfl, halu, hatom, hread]

/-- **A CSR instruction.** -/
theorem posedge_csr (hi : Unstalled i s) (hw : instrMemText C s = (Instr.csr o d r a).encode) :
    posedge C i s = { s with
      pc := s.pc + 4
      regs := writeReg d (csrDec 0 a (csrOut C s)) s.regs
      ram := C.ramClock s.ram (dmemPort C i s)
      mstatus := if a = 0x300#12 then maskedWrite mstatusMask s.mstatus (csrIn C i s)
        else s.mstatus
      mtvec := if a = 0x305#12 then maskedWrite ExceptController.mtvecMask s.mtvec (csrIn C i s)
        else s.mtvec
      cycles := s.cycles + 1
      cycleStallFlag := flopre (!i.stopAt) false i.dataOut s.cycleStallFlag } := by
  have hrow := ctl_csr hi.stall hw
  have hexc : exceptSignal C i s = 0 := by
    have hread : (csrRow o.immediate).memRead.getLsbD 0 = false := BitVec.getLsbD_zero
    rw [exceptSignal_eq, exceptBits_eq_zero, hrow, hread, Bool.and_false]
    exact ⟨rfl, Bool.and_false _, rfl⟩
  have hsrc : pcSrc C i s = false := by rw [pcSrc, hrow]; rfl
  have hen : csrWriteEnable C i s = true := by rw [csrWriteEnable, hrow]; rfl
  have haddr : csrAddr C s = a := by rw [csrAddr, hw, funct12_csr]
  have hregs : regfileNext (ctl C i s).regWrite (rd (instrMemText C s))
      (if (ctl C i s).branch = 0b111#3 then s.pc + 4 else writeData3 C i s) s.regs =
      writeReg d (csrDec 0 a (csrOut C s)) s.regs := by
    rw [writeData3, dmAddr_csr hi.stall hw, hrow, hw, rd_csr]
    exact regfileNext_eq_writeReg _ _ _
  rw [posedge_noExcept hi hexc (by rw [hrow]; rfl), hregs, hsrc]
  simp only [mstatusCSREnable, hen, haddr, Bool.and_true, beq_iff_eq, mstatusMerge_privStack_eq,
    ExceptController.mtvecNext, flopre, flopreInit, Bool.false_eq_true, if_false]
  rfl

/-! ## Read-modify-write -/

/-- The two CSRs a program can both read and write. -/
inductive RmwCsr
  | mstatus | mtvec
  deriving DecidableEq

namespace RmwCsr

def addr : RmwCsr → BitVec 12
  | mstatus => 0x300#12
  | mtvec => 0x305#12

def value (s : State) : RmwCsr → BitVec 64
  | mstatus => s.mstatus
  | mtvec => s.mtvec

/-- MPP, MPIE and MIE; bits 23..2. -/
def writable : RmwCsr → BitVec 64
  | mstatus => 0x1888#64
  | mtvec => 0xfffffc#64

end RmwCsr

/-- The value the instruction set asks a CSR instruction to write. -/
def asked (o : CsrOp) (r : BitVec 5) (c : RmwCsr) (s : State) : BitVec 64 :=
  o.eval (o.operand s.regs r) (c.value s)

/-- `s'` is `s` after the read-modify-write `o` of `c`, as far as `rd` and `c` go. -/
structure ReadModifyWrite (o : CsrOp) (d r : BitVec 5) (c : RmwCsr) (s s' : State) : Prop where
  /-- `rd` receives all of the old value. -/
  rd : s'.regs = writeReg d (c.value s) s.regs
  /-- What is not writable stays. -/
  frame : c.value s' &&& ~~~c.writable = c.value s &&& ~~~c.writable
  /-- The other fields take the bits asked for; MPP apart. -/
  fields : ∀ k < 64, c.writable.getLsbD k = true → (c = .mstatus → k ≠ 11 ∧ k ≠ 12) →
    (c.value s').getLsbD k = (asked o r c s).getLsbD k
  /-- So does MPP when that is a supported mode. -/
  mpp : c = .mstatus →
    (asked o r c s).extractLsb' 11 2 = 0b00#2 ∨ (asked o r c s).extractLsb' 11 2 = 0b11#2 →
    (c.value s').extractLsb' 11 2 = (asked o r c s).extractLsb' 11 2

/--
The immediate has its top bit set, and the ones that sign extension puts above it change a
field: swapped in always, set where one was clear, cleared where one was set.
-/
def Spills (r : BitVec 5) (s : State) : RmwCsr → CsrOp → Prop
  | _, .csrrwi => r.getLsbD 4 = true
  | .mstatus, .csrrsi =>
      r.getLsbD 4 = true ∧ (s.mstatus.getLsbD 7 = false ∨ s.mstatus.extractLsb' 11 2 = 0b00#2)
  | .mstatus, .csrrci =>
      r.getLsbD 4 = true ∧ (s.mstatus.getLsbD 7 = true ∨ s.mstatus.extractLsb' 11 2 = 0b11#2)
  | .mtvec, .csrrsi => r.getLsbD 4 = true ∧ s.mtvec.extractLsb' 5 19 ≠ BitVec.allOnes 19
  | .mtvec, .csrrci => r.getLsbD 4 = true ∧ s.mtvec.extractLsb' 5 19 ≠ 0#19
  | _, _ => False

variable {c : RmwCsr}

/-- The value the core works out. -/
def computed (o : CsrOp) (r : BitVec 5) (c : RmwCsr) (s : State) : BitVec 64 :=
  o.eval (seenOperand s.regs r o) (c.value s)

/-- The core's read-modify-write: a masked write of what it computes. -/
theorem cycle_rmw (hi : Unstalled i s) (hw : instrMemText C s = (Instr.csr o d r c.addr).encode) :
    (cycle C i s).regs = writeReg d (c.value s) s.regs ∧
      c.value (cycle C i s) = maskedWrite c.writable (c.value s) (computed o r c s) := by
  have hread : csrDec 0 c.addr (csrOut C s) = c.value s := by cases c <;> rfl
  have hin := csrIn_csr hi.stall hw
  rw [cycle_eq_posedge hi.reset, posedge_csr hi hw, hin, hread]
  cases c <;> exact ⟨rfl, rfl⟩

/-- What is left to check of a read-modify-write is the fields. -/
theorem readModifyWrite_iff (hi : Unstalled i s)
    (hw : instrMemText C s = (Instr.csr o d r c.addr).encode) :
    ReadModifyWrite o d r c s (cycle C i s) ↔
      (∀ k < 64, c.writable.getLsbD k = true → (c = .mstatus → k ≠ 11 ∧ k ≠ 12) →
        (computed o r c s).getLsbD k = (asked o r c s).getLsbD k) ∧
      (c = .mstatus →
        (asked o r c s).extractLsb' 11 2 = 0b00#2 ∨ (asked o r c s).extractLsb' 11 2 = 0b11#2 →
        (computed o r c s).extractLsb' 11 2 = (asked o r c s).extractLsb' 11 2) := by
  obtain ⟨hregs, hval⟩ := cycle_rmw hi hw
  have hbit : ∀ k < 64, c.writable.getLsbD k = true →
      (c.value (cycle C i s)).getLsbD k = (computed o r c s).getLsbD k := by
    intro k hk hm
    rw [hval, maskedWrite_getLsbD _ _ _ hk, if_pos hm]
  have hmpp : c = .mstatus → (c.value (cycle C i s)).extractLsb' 11 2 =
      (computed o r c s).extractLsb' 11 2 := by
    intro hc
    obtain rfl := hc
    refine BitVec.eq_of_getLsbD_eq ?_
    intro k hk
    rw [BitVec.getLsbD_extractLsb', BitVec.getLsbD_extractLsb',
      hbit (11 + k) (by omega) (by interval_cases k <;> rfl)]
  constructor
  · intro h
    refine ⟨fun k hk hm hne => ?_, fun hc hsup => ?_⟩
    · rw [← hbit k hk hm]; exact h.fields k hk hm hne
    · rw [← hmpp hc]; exact h.mpp hc hsup
  · intro hright
    obtain ⟨hfields, hsup⟩ := hright
    refine ⟨hregs, ?_, fun k hk hm hne => ?_, fun hc hs => ?_⟩
    · rw [hval]; exact maskedWrite_frame _ _ _
    · rw [hbit k hk hm]; exact hfields k hk hm hne
    · rw [hmpp hc]; exact hsup hc hs

/-! ### Where the two operands differ -/

/-- A set top bit fills every slice above the immediate. -/
theorem slice_signExtend {r : BitVec 5} (hr : r.getLsbD 4 = true) {k n : Nat} (hk : 5 ≤ k)
    (hn : k + n ≤ 64) : (r.signExtend 64).extractLsb' k n = BitVec.allOnes n := by
  refine BitVec.eq_of_getLsbD_eq ?_
  intro j hj
  have hmsb : r.msb = true := by rw [BitVec.msb_eq_getLsbD_last]; exact hr
  simp [BitVec.getLsbD_signExtend, hmsb, hj, show k + j < 64 by omega, show ¬ k + j < 5 by omega]

theorem slice_setWidth (r : BitVec 5) {k n : Nat} (hk : 5 ≤ k) :
    (r.setWidth 64).extractLsb' k n = 0#n := by
  refine BitVec.eq_of_getLsbD_eq ?_
  intro j hj
  simp [show 5 ≤ k + j by omega]

/-- The two extensions agree on the immediate itself. -/
theorem signExtend_low (r : BitVec 5) {k : Nat} (hk : k < 5) :
    (r.signExtend 64).getLsbD k = (r.setWidth 64).getLsbD k := by
  rw [BitVec.getLsbD_signExtend, BitVec.getLsbD_setWidth, if_pos hk]

/-- The operations work bit by bit. -/
theorem eval_congr_bit (o : CsrOp) {x y old : BitVec 64} {k : Nat}
    (h : x.getLsbD k = y.getLsbD k) : (o.eval x old).getLsbD k = (o.eval y old).getLsbD k := by
  cases o
  case csrrw | csrrwi => exact h
  case csrrs | csrrsi => simp only [CsrOp.eval, BitVec.getLsbD_or, h]
  case csrrc | csrrci => simp only [CsrOp.eval, BitVec.getLsbD_and, BitVec.getLsbD_not, h]

/-- What the core computes from such an immediate, above the immediate. -/
theorem computed_slice (himm : o.immediate = true) (hr : r.getLsbD 4 = true) {k n : Nat}
    (hk : 5 ≤ k) (hn : k + n < 64) :
    (computed o r c s).extractLsb' k n = if o = .csrrci then 0#n else BitVec.allOnes n := by
  have hones := slice_signExtend hr hk (Nat.le_of_lt hn)
  cases o
  case csrrw | csrrs | csrrc => exact nomatch himm
  case csrrwi => exact hones
  case csrrsi =>
    change (c.value s ||| r.signExtend 64).extractLsb' k n = BitVec.allOnes n
    rw [BitVec.extractLsb'_or, hones, BitVec.or_allOnes]
  case csrrci =>
    change (c.value s &&& ~~~r.signExtend 64).extractLsb' k n = 0#n
    rw [BitVec.extractLsb'_and, BitVec.extractLsb'_not_of_lt hn, hones, BitVec.not_allOnes,
      BitVec.and_zero]

/-- What the instruction set asks for there: the zero extension leaves the old value alone. -/
theorem asked_slice (himm : o.immediate = true) {k n : Nat} (hk : 5 ≤ k) (hn : k + n < 64) :
    (asked o r c s).extractLsb' k n = if o = .csrrwi then 0#n else (c.value s).extractLsb' k n := by
  have hzero := slice_setWidth r (n := n) hk
  cases o
  case csrrw | csrrs | csrrc => exact nomatch himm
  case csrrwi => exact hzero
  case csrrsi =>
    change (c.value s ||| r.setWidth 64).extractLsb' k n = (c.value s).extractLsb' k n
    rw [BitVec.extractLsb'_or, hzero, BitVec.or_zero]
  case csrrci =>
    change (c.value s &&& ~~~r.setWidth 64).extractLsb' k n = (c.value s).extractLsb' k n
    rw [BitVec.extractLsb'_and, BitVec.extractLsb'_not_of_lt hn, hzero, BitVec.not_zero,
      BitVec.and_allOnes]

theorem computed_low (himm : o.immediate = true) {k : Nat} (hk : k < 5) :
    (computed o r c s).getLsbD k = (asked o r c s).getLsbD k := by
  refine eval_congr_bit o ?_
  rw [seenOperand, CsrOp.operand, if_pos himm, if_pos himm]
  exact signExtend_low r hk

theorem fields_mtvec_iff (himm : o.immediate = true) :
    (∀ k < 64, RmwCsr.mtvec.writable.getLsbD k = true →
        (RmwCsr.mtvec = .mstatus → k ≠ 11 ∧ k ≠ 12) →
        (computed o r .mtvec s).getLsbD k = (asked o r .mtvec s).getLsbD k) ↔
      (computed o r .mtvec s).extractLsb' 5 19 = (asked o r .mtvec s).extractLsb' 5 19 := by
  constructor
  · intro h
    refine BitVec.eq_of_getLsbD_eq ?_
    intro j hj
    rw [BitVec.getLsbD_extractLsb', BitVec.getLsbD_extractLsb',
      h (5 + j) (by omega) ((mtvecMask_getLsbD (by omega)).trans (by simp; omega))
        (fun h => nomatch h)]
  · intro h k hk hm _
    have hmask := of_decide_eq_true ((mtvecMask_getLsbD hk).symm.trans hm)
    by_cases hlow : k < 5
    · exact computed_low himm hlow
    · have hbit := congrArg (fun x => x.getLsbD (k - 5)) h
      simpa [show k - 5 < 19 by omega, show 5 + (k - 5) = k by omega] using hbit

theorem fields_mstatus_iff (himm : o.immediate = true) :
    (∀ k < 64, RmwCsr.mstatus.writable.getLsbD k = true →
        (RmwCsr.mstatus = .mstatus → k ≠ 11 ∧ k ≠ 12) →
        (computed o r .mstatus s).getLsbD k = (asked o r .mstatus s).getLsbD k) ↔
      (computed o r .mstatus s).extractLsb' 7 1 = (asked o r .mstatus s).extractLsb' 7 1 := by
  constructor
  · intro h
    refine BitVec.eq_of_getLsbD_eq ?_
    intro j hj
    obtain rfl : j = 0 := by omega
    rw [BitVec.getLsbD_extractLsb', BitVec.getLsbD_extractLsb',
      h 7 (by decide) (by decide) (by decide)]
  · intro h k hk hm hne
    have hmask := (mstatusMask_getLsbD hk).symm.trans hm
    obtain ⟨h11, h12⟩ := hne rfl
    by_cases hlow : k < 5
    · exact computed_low himm hlow
    · obtain rfl : k = 7 := by
        simp only [Bool.or_eq_true, beq_iff_eq] at hmask
        omega
      have hbit := congrArg (fun x => x.getLsbD 0) h
      simpa using hbit

/-- A slice of one bit is that bit. -/
theorem slice_one (x : BitVec 64) (k : Nat) :
    x.extractLsb' k 1 = BitVec.ofBool (x.getLsbD k) := by
  refine BitVec.eq_of_getLsbD_eq ?_
  intro j hj
  obtain rfl : j = 0 := by omega
  simp

theorem rmw_mstatus_spill (himm : o.immediate = true) (hr : r.getLsbD 4 = true)
    (hi : Unstalled i s)
    (hw : instrMemText C s = (Instr.csr o d r RmwCsr.mstatus.addr).encode) :
    ReadModifyWrite o d r .mstatus s (cycle C i s) ↔ ¬ Spills r s .mstatus o := by
  have hmpie : (RmwCsr.mstatus.value s).extractLsb' 7 1 = BitVec.ofBool (s.mstatus.getLsbD 7) :=
    slice_one _ _
  rw [readModifyWrite_iff hi hw, fields_mstatus_iff himm,
    computed_slice himm hr (k := 7) (n := 1) (by decide) (by decide),
    asked_slice himm (k := 7) (n := 1) (by decide) (by decide),
    computed_slice himm hr (k := 11) (n := 2) (by decide) (by decide),
    asked_slice himm (k := 11) (n := 2) (by decide) (by decide), hmpie]
  have hset : ∀ (mpie : Bool) (mpp : BitVec 2),
      (BitVec.allOnes 1 = BitVec.ofBool mpie ∧
        (mpp = 0b00#2 ∨ mpp = 0b11#2 → BitVec.allOnes 2 = mpp)) ↔
      ¬ (mpie = false ∨ mpp = 0b00#2) := by decide
  have hclear : ∀ (mpie : Bool) (mpp : BitVec 2),
      (0#1 = BitVec.ofBool mpie ∧ (mpp = 0b00#2 ∨ mpp = 0b11#2 → 0#2 = mpp)) ↔
      ¬ (mpie = true ∨ mpp = 0b11#2) := by decide
  cases o
  case csrrw | csrrs | csrrc => exact nomatch himm
  case csrrwi =>
    have hne : BitVec.allOnes 1 ≠ 0#1 := by decide
    exact iff_of_false (fun h => hne h.1) (not_not_intro hr)
  case csrrsi =>
    rw [forall_prop_of_true rfl, Spills, and_iff_right hr]
    exact hset _ _
  case csrrci =>
    rw [forall_prop_of_true rfl, Spills, and_iff_right hr]
    exact hclear _ _

theorem rmw_mtvec_spill (himm : o.immediate = true) (hr : r.getLsbD 4 = true)
    (hi : Unstalled i s)
    (hw : instrMemText C s = (Instr.csr o d r RmwCsr.mtvec.addr).encode) :
    ReadModifyWrite o d r .mtvec s (cycle C i s) ↔ ¬ Spills r s .mtvec o := by
  have hfields : ReadModifyWrite o d r .mtvec s (cycle C i s) ↔
      (computed o r .mtvec s).extractLsb' 5 19 = (asked o r .mtvec s).extractLsb' 5 19 := by
    rw [readModifyWrite_iff hi hw, ← fields_mtvec_iff himm]
    exact and_iff_left fun h => nomatch h
  rw [hfields, computed_slice himm hr (k := 5) (n := 19) (by decide) (by decide),
    asked_slice himm (k := 5) (n := 19) (by decide) (by decide)]
  cases o
  case csrrw | csrrs | csrrc => exact nomatch himm
  case csrrwi =>
    have hne : BitVec.allOnes 19 ≠ 0#19 := by decide
    exact iff_of_false hne (not_not_intro hr)
  case csrrsi =>
    rw [Spills, and_iff_right hr, not_not]
    exact eq_comm
  case csrrci =>
    rw [Spills, and_iff_right hr, not_not]
    exact eq_comm

/--
**CSR read-modify-write.** It is the one the instruction set asks for exactly when no
sign-extended immediate spills into a field.
-/
theorem csr_rmw_iff (hi : Unstalled i s)
    (hw : instrMemText C s = (Instr.csr o d r c.addr).encode) :
    ReadModifyWrite o d r c s (cycle C i s) ↔ ¬ Spills r s c o := by
  by_cases hleak : o.immediate = true ∧ r.getLsbD 4 = true
  · cases c with
    | mstatus => exact rmw_mstatus_spill hleak.1 hleak.2 hi hw
    | mtvec => exact rmw_mtvec_spill hleak.1 hleak.2 hi hw
  · have hoperand : seenOperand s.regs r o = o.operand s.regs r := by
      rw [seenOperand, CsrOp.operand]
      split_ifs with himm
      · refine BitVec.signExtend_eq_setWidth_of_msb_false ?_
        rw [BitVec.msb_eq_getLsbD_last, Bool.eq_false_iff]
        exact fun hr => hleak ⟨himm, hr⟩
      · rfl
    have heq : computed o r c s = asked o r c s := by rw [computed, asked, hoperand]
    rw [readModifyWrite_iff hi hw, heq]
    refine iff_of_true ⟨fun _ _ _ _ => rfl, fun _ _ => rfl⟩ fun hspill => ?_
    cases o <;> cases c
    case csrrwi.mstatus | csrrwi.mtvec => exact hleak ⟨rfl, hspill⟩
    case csrrsi.mstatus | csrrsi.mtvec | csrrci.mstatus | csrrci.mtvec =>
      exact hleak ⟨rfl, hspill.1⟩
    all_goals exact hspill

/-- `csrrwi x1, mstatus, 8`, as the boot code has it. -/
theorem csr_rmw_boot :
    ReadModifyWrite .csrrwi 1 8 .mstatus (State.released (fun _ => 0) 0)
      (cycle (Chip.ofProgram [0x300450f3#32]) Inputs.idle (State.released (fun _ => 0) 0)) :=
  (csr_rmw_iff ⟨rfl, by decide +kernel⟩ (by decide +kernel)).mpr
    (by decide : (8#5).getLsbD 4 ≠ true)

/-- `csrrwi x0, mtvec, 16` sets `mtvec` to `0xfffff0`. -/
theorem csr_rmw_spills :
    ¬ ∀ (C : Chip) (i : Inputs) (s : State) (o : CsrOp) (d r : BitVec 5) (c : RmwCsr),
      Reachable C s → Unstalled i s → instrMemText C s = (Instr.csr o d r c.addr).encode →
        ReadModifyWrite o d r c s (cycle C i s) := by
  intro h
  have hrmw := h (Chip.ofProgram [0x30585073#32]) Inputs.idle (State.released (fun _ => 0) 0)
    .csrrwi 0 16 .mtvec (reachable_released _ _ _) ⟨rfl, by decide +kernel⟩ (by decide +kernel)
  have hbit := hrmw.fields 5 (by decide) (by decide) (fun h => nomatch h)
  revert hbit
  decide +kernel

end Core

end PassiFlo
