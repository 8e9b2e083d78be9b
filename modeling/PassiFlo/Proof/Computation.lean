import PassiFlo.Proof.Branches

/-!
# Computational instructions

One ALU computes all of them; the word forms give it zero-extended operands and sign
extend the low half of what comes out. Every operation commutes with that except the
arithmetic right shift, which finds a zero where the sign of the word should be.
-/

namespace PassiFlo

open Isa

/-! ## The ALU on 64 bits -/

namespace Isa

/-- The ALU control of a register operation. -/
def RegOp.control : RegOp → BitVec 4
  | add => 0b0010#4
  | sub => 0b0110#4
  | sll => 0b0111#4
  | slt => 0b1110#4
  | sltu => 0b1010#4
  | xor => 0b1001#4
  | srl => 0b0011#4
  | sra => 0b1011#4
  | or => 0b0001#4
  | and => 0b0000#4

/-- The 64-bit operation the ALU runs for a word operation. -/
def RegOpW.toRegOp : RegOpW → RegOp
  | addw => .add
  | subw => .sub
  | sllw => .sll
  | srlw => .srl
  | sraw => .sra

theorem RegOp.aludec_control : ∀ o : RegOp, aludec o.funct7 o.funct3 0b10#2 = o.control := by
  decide

theorem RegOpW.aludec_control : ∀ o : RegOpW,
    aludec o.funct7 o.funct3 0b10#2 = o.toRegOp.control := by
  decide

/-- Immediate operations do not look at the bits above `funct3`. -/
theorem ImmOp.aludec_control : ∀ (o : ImmOp) (f7 : BitVec 7),
    aludec f7 o.funct3 0b11#2 = o.toRegOp.control := by
  decide +kernel

/-- Shifts by an immediate only look at bit 30. -/
theorem ShiftOp.aludec_control : ∀ (o : ShiftOp) (f7 : BitVec 7),
    f7.getLsbD 5 = o.funct6.getLsbD 4 → aludec f7 o.funct3 0b11#2 = o.toRegOp.control := by
  decide +kernel

theorem addiw_aludec : ∀ f7 : BitVec 7, aludec f7 0b000#3 0b11#2 = RegOp.add.control := by
  decide

end Isa

/-- **The ALU computes the register operations.** -/
theorem alu_control (o : RegOp) (a b : BitVec 64) :
    (alu a b false o.control).result = o.eval a b := by
  cases o
  case add => exact alu_add a b
  case sub => exact alu_sub a b
  all_goals rfl

/-! ## The ALU on words -/

/-- The low half of the operand, with zeros above. -/
def zeroWord (x : BitVec 64) : BitVec 64 := 0#32 ++ x.extractLsb' 0 32

theorem zeroWord_eq (x : BitVec 64) : zeroWord x = (x.extractLsb' 0 32).setWidth 64 := by
  refine BitVec.eq_of_getLsbD_eq ?_
  intro k hk
  simp only [zeroWord, BitVec.getLsbD_append, BitVec.getLsbD_setWidth, BitVec.getLsbD_zero]
  grind

/-- The shift amount is read from the low half. -/
theorem zeroWord_amount (x : BitVec 64) :
    (zeroWord x).extractLsb' 0 5 = (x.extractLsb' 0 32).extractLsb' 0 5 :=
  BitVec.extractLsb'_append_eq_of_add_le (by decide)

theorem zeroWord_low (x : BitVec 64) : (zeroWord x).setWidth 32 = x.extractLsb' 0 32 :=
  BitVec.setWidth_append_eq_right

theorem zeroWord_msb (x : BitVec 64) : (zeroWord x).msb = false := by
  rw [zeroWord_eq, BitVec.msb_eq_getLsbD_last, BitVec.getLsbD_setWidth]
  simp

theorem zeroWord_ushiftRight (x : BitVec 64) (n : Nat) :
    (zeroWord x >>> n).setWidth 32 = x.extractLsb' 0 32 >>> n := by
  rw [zeroWord_eq, ← BitVec.setWidth_ushiftRight (by decide),
    BitVec.setWidth_setWidth_of_le _ (by decide), BitVec.setWidth_eq]

/-- What the core makes of a word operation: its arithmetic shift is a logical one. -/
def evalCore (a b : BitVec 32) : RegOpW → BitVec 32
  | .sraw => RegOpW.srlw.evalWord a b
  | o => o.evalWord a b

/-- **The ALU on zero-extended operands.** -/
theorem alu_word (o : RegOpW) (a b : BitVec 64) :
    (alu (zeroWord a) (zeroWord b) true o.toRegOp.control).result.extractLsb' 0 32 =
      evalCore (a.extractLsb' 0 32) (b.extractLsb' 0 32) o := by
  rw [← BitVec.setWidth_eq_extractLsb' (by decide)]
  cases o
  case addw =>
    have hadd : (alu (zeroWord a) (zeroWord b) true RegOpW.addw.toRegOp.control).result =
        zeroWord a + zeroWord b := alu_add _ _
    rw [hadd, BitVec.setWidth_add _ _ (by decide), zeroWord_low, zeroWord_low]
    rfl
  case subw =>
    have hsub : (alu (zeroWord a) (zeroWord b) true RegOpW.subw.toRegOp.control).result =
        zeroWord a - zeroWord b := alu_sub _ _
    rw [hsub, BitVec.sub_eq_add_neg, BitVec.setWidth_add _ _ (by decide),
      BitVec.setWidth_neg_of_le (by decide), zeroWord_low, zeroWord_low, ← BitVec.sub_eq_add_neg]
    rfl
  case sllw =>
    change (zeroWord a <<< ((zeroWord b).extractLsb' 0 5).toNat).setWidth 32 = _
    rw [zeroWord_amount, BitVec.setWidth_shiftLeft_of_le (by decide), zeroWord_low]
    rfl
  case srlw =>
    change (zeroWord a >>> ((zeroWord b).extractLsb' 0 5).toNat).setWidth 32 = _
    rw [zeroWord_amount, zeroWord_ushiftRight]
    rfl
  case sraw =>
    change ((zeroWord a).sshiftRight ((zeroWord b).extractLsb' 0 5).toNat).setWidth 32 = _
    rw [zeroWord_amount, BitVec.sshiftRight_eq_of_msb_false (zeroWord_msb a), zeroWord_ushiftRight]
    rfl

/-- A logical shift passes for an arithmetic one if there is no sign or nothing to shift. -/
theorem sshiftRight_eq_ushiftRight_iff (x : BitVec 32) {n : Nat} (hn : n < 32) :
    x >>> n = x.sshiftRight n ↔ ¬ (x.msb = true ∧ n ≠ 0) := by
  constructor
  · intro h hsign
    obtain ⟨hmsb, hne⟩ := hsign
    have hbit := congrArg BitVec.msb h
    rw [BitVec.msb_sshiftRight, hmsb, BitVec.msb_ushiftRight] at hbit
    simp [hne] at hbit
  · intro h
    by_cases hmsb : x.msb = true
    · obtain rfl : n = 0 := by
        by_contra hne
        exact h ⟨hmsb, hne⟩
      rw [BitVec.ushiftRight_zero, BitVec.sshiftRight_zero]
    · rw [BitVec.sshiftRight_eq_of_msb_false (Bool.eq_false_iff.mpr hmsb)]

/-- Where the core's word operations are those of the instruction set. -/
theorem evalCore_eq_iff (o : RegOpW) (a b : BitVec 32) :
    evalCore a b o = o.evalWord a b ↔
      ¬ (o = .sraw ∧ a.msb = true ∧ b.extractLsb' 0 5 ≠ 0) := by
  cases o
  case sraw =>
    change a >>> (b.extractLsb' 0 5).toNat = a.sshiftRight (b.extractLsb' 0 5).toNat ↔ _
    rw [sshiftRight_eq_ushiftRight_iff a (b.extractLsb' 0 5).isLt, and_iff_right rfl, ne_eq, ne_eq,
      ← BitVec.toNat_inj]
    rfl
  all_goals exact iff_of_true rfl fun h => nomatch h.1

theorem signExtend_inj {x y : BitVec 32} : x.signExtend 64 = y.signExtend 64 ↔ x = y := by
  rw [← BitVec.toInt_inj, BitVec.toInt_signExtend_of_le (by decide),
    BitVec.toInt_signExtend_of_le (by decide), BitVec.toInt_inj]

/-! ## Shift amounts -/

namespace Isa

/-- Shifts look at six bits of the second operand. -/
theorem ShiftOp.eval_congr (o : ShiftOp) (a : BitVec 64) {b c : BitVec 64}
    (h : b.extractLsb' 0 6 = c.extractLsb' 0 6) : o.toRegOp.eval a b = o.toRegOp.eval a c := by
  cases o <;> simp only [ShiftOp.toRegOp, RegOp.eval, h]

/-- Word shifts look at five. -/
theorem ShiftOp.evalWord_congr (o : ShiftOp) (a : BitVec 32) {b c : BitVec 32}
    (h : b.extractLsb' 0 5 = c.extractLsb' 0 5) :
    o.toRegOpW.evalWord a b = o.toRegOpW.evalWord a c := by
  cases o <;> simp only [ShiftOp.toRegOpW, RegOpW.evalWord, h]

/-- The amount is the low end of the immediate. -/
theorem amount_signExtend (f : BitVec 6) (shamt : BitVec 6) :
    ((f ++ shamt).signExtend 64).extractLsb' 0 6 = (shamt.setWidth 64).extractLsb' 0 6 := by
  refine BitVec.eq_of_getLsbD_eq ?_
  intro k hk
  simp only [BitVec.getLsbD_extractLsb', BitVec.getLsbD_signExtend, BitVec.getLsbD_append,
    BitVec.getLsbD_setWidth]
  grind

theorem amountW_signExtend (f : BitVec 6) (shamt : BitVec 5) :
    (((f ++ 0#1 ++ shamt).signExtend 64).extractLsb' 0 32).extractLsb' 0 5 = shamt := by
  refine BitVec.eq_of_getLsbD_eq ?_
  intro k hk
  simp only [BitVec.getLsbD_extractLsb', BitVec.getLsbD_signExtend, BitVec.getLsbD_append]
  grind

theorem amountW_setWidth (shamt : BitVec 5) :
    ((shamt.setWidth 64).extractLsb' 0 32).extractLsb' 0 5 = shamt := by
  rw [BitVec.extractLsb'_extractLsb'_of_le (by decide),
    BitVec.extractLsb'_setWidth_of_le (by decide), BitVec.extractLsb'_eq_self]

theorem funct6_shift (f shamt : BitVec 6) : (funct7 (f ++ shamt)).getLsbD 5 = f.getLsbD 4 := by
  simp only [funct7, BitVec.getLsbD_extractLsb', BitVec.getLsbD_append]
  rfl

theorem funct6_shiftW (f : BitVec 6) (shamt : BitVec 5) :
    (funct7 (f ++ 0#1 ++ shamt)).getLsbD 5 = f.getLsbD 4 := by
  rw [funct7_append_shift, BitVec.getLsbD_append]
  rfl

end Isa

namespace Core

variable {C : Chip} {i : Inputs} {s : State}

/-! ## Stages -/

/-- The first operand: PC, `rs1` or, for LUI, `x0`. -/
theorem operand1_compute {wArith aluSrc : Bool} {regSel aluOp : BitVec 2}
    (hrow : (ctl C i s).toMainDec = computeRow wArith regSel aluSrc aluOp) :
    (if (ctl C i s).regSel.getLsbD 1 then s.pc else (dec C i s).readData1) =
      if regSel.getLsbD 1 then s.pc
      else s.regs (if regSel.getLsbD 0 then 0 else rs1 (instrMemText C s)) := by
  have hsel : (ctl C i s).regSel = regSel := by rw [hrow]; rfl
  rw [hsel]
  simp only [dec, decode, hsel]

/-- The second operand: `rs2` or the immediate. -/
theorem operand2_compute {wArith aluSrc : Bool} {regSel aluOp : BitVec 2}
    (hrow : (ctl C i s).toMainDec = computeRow wArith regSel aluSrc aluOp)
    (hjalr : opcode (instrMemText C s) ≠ 0b1100111#7) :
    (if (ctl C i s).aluSrc then (dec C i s).signImm else (dec C i s).readData2) =
      if aluSrc then signext (instrMemText C s) else s.regs (rs2 (instrMemText C s)) := by
  have hsrc : (ctl C i s).aluSrc = aluSrc := by rw [hrow]; rfl
  have himm : (dec C i s).signImm = signext (instrMemText C s) := if_neg hjalr
  rw [hsrc, himm]
  rfl

/-- **The 64-bit operations.** -/
theorem dmAddr_wide {aluSrc : Bool} {regSel aluOp : BitVec 2} {o : RegOp} {a b : BitVec 64}
    (hrow : (ctl C i s).toMainDec = computeRow false regSel aluSrc aluOp)
    (hjalr : opcode (instrMemText C s) ≠ 0b1100111#7)
    (halu : aludec ((funct12 (instrMemText C s)).extractLsb' 5 7) (funct3 (instrMemText C s))
      aluOp = o.control)
    (ha : (if regSel.getLsbD 1 then s.pc
      else s.regs (if regSel.getLsbD 0 then 0 else rs1 (instrMemText C s))) = a)
    (hb : (if aluSrc then signext (instrMemText C s) else s.regs (rs2 (instrMemText C s))) = b) :
    dmAddr C i s = o.eval a b := by
  have hctl : (ctl C i s).aluControl = o.control := by rw [ctl_aluControl, hrow]; exact halu
  have hsel : (ctl C i s).aluSelect = false := by rw [hrow]; rfl
  have harith : (ctl C i s).wArith = false := by rw [hrow]; rfl
  rw [← alu_control, ← hctl, ← ha, ← hb, ← operand1_compute hrow, ← operand2_compute hrow hjalr]
  simp only [dmAddr, exec, execute, hsel, harith, Bool.false_eq_true, if_false]

/-- **The word operations.** -/
theorem dmAddr_word {aluSrc : Bool} {aluOp : BitVec 2} {o : RegOpW} {b : BitVec 64}
    (hrow : (ctl C i s).toMainDec = computeRow true 0 aluSrc aluOp)
    (hjalr : opcode (instrMemText C s) ≠ 0b1100111#7)
    (halu : aludec ((funct12 (instrMemText C s)).extractLsb' 5 7) (funct3 (instrMemText C s))
      aluOp = o.toRegOp.control)
    (hb : (if aluSrc then signext (instrMemText C s) else s.regs (rs2 (instrMemText C s))) = b) :
    dmAddr C i s = (evalCore ((s.regs (rs1 (instrMemText C s))).extractLsb' 0 32)
      (b.extractLsb' 0 32) o).signExtend 64 := by
  have hctl : (ctl C i s).aluControl = o.toRegOp.control := by
    rw [ctl_aluControl, hrow]; exact halu
  have hsel : (ctl C i s).aluSelect = false := by rw [hrow]; rfl
  have harith : (ctl C i s).wArith = true := by rw [hrow]; rfl
  have ha := operand1_compute hrow
  simp only [BitVec.ofNat_eq_ofNat, BitVec.getLsbD_zero, Bool.false_eq_true, if_false] at ha
  have hbit : ∀ r : BitVec 64, r.getLsbD 31 = (r.extractLsb' 0 32).getLsbD (32 - 1) := fun r => by
    rw [BitVec.getLsbD_extractLsb']; rfl
  rw [← alu_word, ← hctl, ← ha, ← hb, ← operand2_compute hrow hjalr,
    ← rep_append_eq_signExtend, ← hbit]
  simp only [dmAddr, exec, execute, hsel, harith, Bool.false_eq_true, if_false, if_true]
  rfl

/-! ## Right results -/

/-- `s'` is `s` after an instruction that only computes `v` and puts it into `d`. -/
structure ComputesRight (C : Chip) (d : BitVec 5) (v : BitVec 64) (s s' : State) : Prop where
  pc : s'.pc = s.pc + 4
  regs : s'.regs = writeReg d v s.regs
  words : s'.ram.words = s.ram.words
  /-- Every CSR but the cycle counter. -/
  csrs : ∀ k ≠ 5, csrOut C s' k = csrOut C s k
  mode : s'.mode = s.mode

/-- Apart from the value everything is as it should be. -/
theorem computes_iff (hram : C.Altsyncram) (hi : Unstalled i s) {wArith aluSrc : Bool}
    {regSel aluOp : BitVec 2} (hrow : (ctl C i s).toMainDec = computeRow wArith regSel aluSrc aluOp)
    {v : BitVec 64} :
    ComputesRight C (rd (instrMemText C s)) v s (cycle C i s) ↔
      rd (instrMemText C s) = 0 ∨ dmAddr C i s = v := by
  have hd := computeRow_direct wArith regSel aluSrc aluOp
  rw [← hrow] at hd
  have hsrc : pcSrc C i s = false := by rw [pcSrc, hrow]; rfl
  have hwrite : (ctl C i s).regWrite = true := by rw [hrow]; rfl
  have hres : directResult C i s = dmAddr C i s := by
    rw [directResult, if_neg]
    rw [hrow]; exact of_decide_eq_false rfl
  rw [cycle_eq_posedge hi.reset, posedge_direct hram hi hd, hsrc, hwrite, hres,
    regfileNext_eq_writeReg, ← @writeReg_eq_iff _ _ _ s.regs]
  refine ⟨fun h => h.regs, fun h => ⟨rfl, h, rfl, fun k hk => ?_, rfl⟩⟩
  fin_cases k
  all_goals first | rfl | exact absurd rfl hk

/-- The arithmetic right shift of a negative word into `rd`. -/
def ShiftsInZeros (s : State) : Instr → Prop
  | .opW o rd rs1 rs2 =>
      rd ≠ 0 ∧ o = .sraw ∧ (s.regs rs1).getLsbD 31 = true ∧ (s.regs rs2).extractLsb' 0 5 ≠ 0
  | .shiftImmW o rd rs1 shamt =>
      rd ≠ 0 ∧ o = .sra ∧ (s.regs rs1).getLsbD 31 = true ∧ shamt ≠ 0
  | _ => False

/-- A 64-bit instruction computes right. -/
theorem computes_wide (hram : C.Altsyncram) (hi : Unstalled i s) {aluSrc : Bool}
    {regSel aluOp : BitVec 2} (hrow : (ctl C i s).toMainDec = computeRow false regSel aluSrc aluOp)
    {d : BitVec 5} (hd : rd (instrMemText C s) = d) {v : BitVec 64} (hv : dmAddr C i s = v) :
    ComputesRight C d v s (cycle C i s) := by
  rw [← hd]
  exact (computes_iff hram hi hrow).mpr (.inr hv)

/-- A word instruction does if the core's word operation is the right one. -/
theorem computes_word (hram : C.Altsyncram) (hi : Unstalled i s) {aluSrc : Bool}
    {aluOp : BitVec 2} (hrow : (ctl C i s).toMainDec = computeRow true 0 aluSrc aluOp)
    {d : BitVec 5} (hd : rd (instrMemText C s) = d) {o : RegOpW} {a b c : BitVec 32}
    (hres : dmAddr C i s = (evalCore a b o).signExtend 64)
    (hc : o.evalWord a b = o.evalWord a c) :
    ComputesRight C d ((o.evalWord a c).signExtend 64) s (cycle C i s) ↔
      ¬ (d ≠ 0 ∧ o = .sraw ∧ a.msb = true ∧ b.extractLsb' 0 5 ≠ 0) := by
  rw [← hd, computes_iff hram hi hrow, hres, signExtend_inj, ← hc, evalCore_eq_iff]
  tauto

theorem low_msb (x : BitVec 64) : (x.extractLsb' 0 32).msb = x.getLsbD 31 := by
  rw [BitVec.msb_eq_getLsbD_last, BitVec.getLsbD_extractLsb']
  rfl

section Forms

variable (hram : C.Altsyncram) (hi : Unstalled i s)
include hram hi

theorem compute_lui (hs : Reachable C s) {d : BitVec 5} {imm : BitVec 20}
    (hw : instrMemText C s = (Instr.lui d imm).encode) :
    ComputesRight C d ((imm ++ 0#12).signExtend 64) s (cycle C i s) := by
  obtain ⟨hop, hd, -⟩ := fields_of_eq_word hw
  have hrow : (ctl C i s).toMainDec = computeRow false 0b01#2 true 0 := by
    rw [ctl_unstalled hi.stall, hop]
    exact (maindec_compute _ _).2.2.2.2.1
  have himm : signext (instrMemText C s) = (imm ++ 0#12).signExtend 64 := by
    rw [signext_uImm (.inl hop), uImm, hw, Instr.encode, slice12_wordU]
  refine computes_wide hram hi hrow hd ?_
  rw [dmAddr_wide hrow (by rw [hop]; decide) (o := .add) rfl (regs_zero_reachable hs) himm]
  exact BitVec.zero_add _

theorem compute_auipc {d : BitVec 5} {imm : BitVec 20}
    (hw : instrMemText C s = (Instr.auipc d imm).encode) :
    ComputesRight C d (s.pc + (imm ++ 0#12).signExtend 64) s (cycle C i s) := by
  obtain ⟨hop, hd, -⟩ := fields_of_eq_word hw
  have hrow : (ctl C i s).toMainDec = computeRow false 0b10#2 true 0 := by
    rw [ctl_unstalled hi.stall, hop]
    exact (maindec_compute _ _).2.2.2.2.2
  have himm : signext (instrMemText C s) = (imm ++ 0#12).signExtend 64 := by
    rw [signext_uImm (.inr hop), uImm, hw, Instr.encode, slice12_wordU]
  refine computes_wide hram hi hrow hd ?_
  exact dmAddr_wide hrow (by rw [hop]; decide) (o := .add) rfl rfl himm

theorem compute_opImm {o : ImmOp} {d a : BitVec 5} {imm : BitVec 12}
    (hw : instrMemText C s = (Instr.opImm o d a imm).encode) :
    ComputesRight C d (o.toRegOp.eval (s.regs a) (imm.signExtend 64)) s (cycle C i s) := by
  obtain ⟨hop, hd, hf3, ha, -, hf12⟩ := fields_of_eq_word hw
  have hrow : (ctl C i s).toMainDec = computeRow false 0 true 0b11#2 := by
    rw [ctl_unstalled hi.stall, hop]
    exact (maindec_compute _ _).2.2.1
  have himm : signext (instrMemText C s) = imm.signExtend 64 :=
    (signext_iImm (.inl hop)).trans (congrArg (BitVec.signExtend 64) hf12)
  refine computes_wide hram hi hrow hd ?_
  exact dmAddr_wide hrow (by rw [hop]; decide) (by rw [hf3]; exact ImmOp.aludec_control o _)
    (congrArg s.regs ha) himm

theorem compute_shiftImm {o : ShiftOp} {d a : BitVec 5} {shamt : BitVec 6}
    (hw : instrMemText C s = (Instr.shiftImm o d a shamt).encode) :
    ComputesRight C d (o.toRegOp.eval (s.regs a) (shamt.setWidth 64)) s (cycle C i s) := by
  obtain ⟨hop, hd, hf3, ha, -, hf12⟩ := fields_of_eq_word hw
  have hrow : (ctl C i s).toMainDec = computeRow false 0 true 0b11#2 := by
    rw [ctl_unstalled hi.stall, hop]
    exact (maindec_compute _ _).2.2.1
  have himm : signext (instrMemText C s) = (o.funct6 ++ shamt).signExtend 64 :=
    (signext_iImm (.inl hop)).trans (congrArg (BitVec.signExtend 64) hf12)
  have halu : aludec ((funct12 (instrMemText C s)).extractLsb' 5 7) (funct3 (instrMemText C s))
      0b11#2 = o.toRegOp.control := by
    rw [hf3, hf12]
    exact ShiftOp.aludec_control o _ (funct6_shift _ _)
  refine computes_wide hram hi hrow hd ?_
  rw [dmAddr_wide hrow (by rw [hop]; decide) halu (congrArg s.regs ha) himm]
  exact ShiftOp.eval_congr o _ (amount_signExtend _ _)

theorem compute_op {o : RegOp} {d a b : BitVec 5}
    (hw : instrMemText C s = (Instr.op o d a b).encode) :
    ComputesRight C d (o.eval (s.regs a) (s.regs b)) s (cycle C i s) := by
  obtain ⟨hop, hd, hf3, ha, hb, hf12⟩ := fields_of_eq_word hw
  rw [BitVec.extractLsb'_append_eq_right] at hb
  have hrow : (ctl C i s).toMainDec = computeRow false 0 false 0b10#2 := by
    rw [ctl_unstalled hi.stall, hop]
    exact (maindec_compute _ _).1
  have halu : aludec ((funct12 (instrMemText C s)).extractLsb' 5 7) (funct3 (instrMemText C s))
      0b10#2 = o.control := by
    rw [hf3, hf12, ← funct7, funct7_append]
    exact RegOp.aludec_control o
  refine computes_wide hram hi hrow hd ?_
  exact dmAddr_wide hrow (by rw [hop]; decide) halu (congrArg s.regs ha) (congrArg s.regs hb)

theorem compute_addiw {d a : BitVec 5} {imm : BitVec 12}
    (hw : instrMemText C s = (Instr.addiw d a imm).encode) :
    ComputesRight C d (RegOpW.addw.eval (s.regs a) (imm.signExtend 64)) s (cycle C i s) := by
  obtain ⟨hop, hd, hf3, ha, -, hf12⟩ := fields_of_eq_word hw
  have hrow : (ctl C i s).toMainDec = computeRow true 0 true 0b11#2 := by
    rw [ctl_unstalled hi.stall, hop]
    exact (maindec_compute _ _).2.2.2.1
  have himm : (signext (instrMemText C s)).extractLsb' 0 32 =
      (imm.signExtend 64).extractLsb' 0 32 := by
    rw [signext_word_low hop]
    exact congrArg (fun f => (BitVec.signExtend 64 f).extractLsb' 0 32) hf12
  have hres := dmAddr_word hrow (by rw [hop]; decide) (o := .addw)
    (by rw [hf3]; exact addiw_aludec _) rfl
  rw [if_pos rfl, himm, ha] at hres
  exact (computes_word hram hi hrow hd hres rfl).mpr fun h => nomatch h.2.1

theorem compute_shiftImmW {o : ShiftOp} {d a : BitVec 5} {shamt : BitVec 5}
    (hw : instrMemText C s = (Instr.shiftImmW o d a shamt).encode) :
    ComputesRight C d (o.toRegOpW.eval (s.regs a) (shamt.setWidth 64)) s (cycle C i s) ↔
      ¬ ShiftsInZeros s (.shiftImmW o d a shamt) := by
  obtain ⟨hop, hd, hf3, ha, -, hf12⟩ := fields_of_eq_word hw
  have hrow : (ctl C i s).toMainDec = computeRow true 0 true 0b11#2 := by
    rw [ctl_unstalled hi.stall, hop]
    exact (maindec_compute _ _).2.2.2.1
  have himm : (signext (instrMemText C s)).extractLsb' 0 32 =
      ((o.funct6 ++ 0#1 ++ shamt).signExtend 64).extractLsb' 0 32 := by
    rw [signext_word_low hop]
    exact congrArg (fun f => (BitVec.signExtend 64 f).extractLsb' 0 32) hf12
  have hcontrol : o.toRegOpW.toRegOp = o.toRegOp := by cases o <;> rfl
  have halu : aludec ((funct12 (instrMemText C s)).extractLsb' 5 7) (funct3 (instrMemText C s))
      0b11#2 = o.toRegOpW.toRegOp.control := by
    rw [hf3, hf12, hcontrol]
    exact ShiftOp.aludec_control o _ (funct6_shiftW _ _)
  have hres := dmAddr_word hrow (by rw [hop]; decide) halu rfl
  rw [if_pos rfl, himm, ha] at hres
  -- both readings of the immediate shift by the same amount
  have hamount := (amountW_signExtend o.funct6 shamt).trans (amountW_setWidth shamt).symm
  have hsra : o.toRegOpW = .sraw ↔ o = .sra := by cases o <;> decide
  rw [RegOpW.eval, computes_word hram hi hrow hd hres (ShiftOp.evalWord_congr o _ hamount),
    amountW_signExtend, low_msb, hsra]
  rfl

theorem compute_opW {o : RegOpW} {d a b : BitVec 5}
    (hw : instrMemText C s = (Instr.opW o d a b).encode) :
    ComputesRight C d (o.eval (s.regs a) (s.regs b)) s (cycle C i s) ↔
      ¬ ShiftsInZeros s (.opW o d a b) := by
  obtain ⟨hop, hd, hf3, ha, hb, hf12⟩ := fields_of_eq_word hw
  rw [BitVec.extractLsb'_append_eq_right] at hb
  have hrow : (ctl C i s).toMainDec = computeRow true 0 false 0b10#2 := by
    rw [ctl_unstalled hi.stall, hop]
    exact (maindec_compute _ _).2.1
  have halu : aludec ((funct12 (instrMemText C s)).extractLsb' 5 7) (funct3 (instrMemText C s))
      0b10#2 = o.toRegOp.control := by
    rw [hf3, hf12, ← funct7, funct7_append]
    exact RegOpW.aludec_control o
  have hres := dmAddr_word hrow (by rw [hop]; decide) halu (congrArg s.regs hb)
  rw [ha] at hres
  rw [RegOpW.eval, computes_word hram hi hrow hd hres rfl, low_msb, slice_slice _ (by decide)]
  rfl

end Forms

/--
**Computational instructions.** They compute what the instruction set says exactly if
they are no arithmetic right shift of a negative word.
-/
theorem compute_iff (hram : C.Altsyncram) (hi : Unstalled i s) (hs : Reachable C s) {x : Instr}
    (hw : instrMemText C s = x.encode) {d : BitVec 5} {v : BitVec 64}
    (hx : x.result s.pc s.regs = some (d, v)) :
    ComputesRight C d v s (cycle C i s) ↔ ¬ ShiftsInZeros s x := by
  cases x
  case lui =>
    cases hx
    exact iff_of_true (compute_lui hram hi hs hw) id
  case auipc =>
    cases hx
    exact iff_of_true (compute_auipc hram hi hw) id
  case opImm =>
    cases hx
    exact iff_of_true (compute_opImm hram hi hw) id
  case shiftImm =>
    cases hx
    exact iff_of_true (compute_shiftImm hram hi hw) id
  case addiw =>
    cases hx
    exact iff_of_true (compute_addiw hram hi hw) id
  case shiftImmW =>
    cases hx
    exact compute_shiftImmW hram hi hw
  case op =>
    cases hx
    exact iff_of_true (compute_op hram hi hw) id
  case opW =>
    cases hx
    exact compute_opW hram hi hw
  all_goals cases hx

/-- `addi x1, x0, -1`. -/
theorem compute_addi :
    ComputesRight (Chip.ofProgram [0xfff00093#32]) 1 (-1) (State.released (fun _ => 0) 0)
      (cycle (Chip.ofProgram [0xfff00093#32]) Inputs.idle (State.released (fun _ => 0) 0)) :=
  (compute_iff (Chip.ofProgram_altsyncram _) ⟨rfl, by decide +kernel⟩ (reachable_released _ _ _)
    (x := .opImm .addi 1 0 (-1)) (by decide +kernel) (by decide +kernel)).mpr id

/-- `addi x1, x0, -1` and `sraiw x2, x1, 1`. -/
def shiftMinusOne : Chip := Chip.ofProgram [0xfff00093#32, 0x4010d11b#32]

/-- Half of minus one is not the greatest word. -/
theorem compute_sraiw_negative :
    ¬ ∀ (C : Chip) (i : Inputs) (s : State) (x : Instr) (d : BitVec 5) (v : BitVec 64),
      C.Altsyncram → Reachable C s → Unstalled i s → instrMemText C s = x.encode →
        x.result s.pc s.regs = some (d, v) → ComputesRight C d v s (cycle C i s) := by
  intro h
  have hright := h shiftMinusOne Inputs.idle
    (run shiftMinusOne [Inputs.idle] (State.released (fun _ => 0) 0)) (.shiftImmW .sra 2 1 1) 2 (-1)
    (Chip.ofProgram_altsyncram _) ((reachable_released _ _ _).run _) ⟨rfl, by decide +kernel⟩
    (by decide +kernel) (by decide +kernel)
  have hreg := congrFun hright.regs 2
  revert hreg
  decide +kernel

end Core

end PassiFlo
