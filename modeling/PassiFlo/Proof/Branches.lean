import PassiFlo.Proof.LoadStore
import PassiFlo.Isa.Semantics

/-!
# Transfers of control

Branches are decided from the flags of one subtraction. Zero and borrow give equality
and the unsigned order; for the signed order the core takes the sign of the difference
as it stands, which is the wrong way round when the subtraction overflows. Targets and
link addresses are right throughout.
-/

namespace PassiFlo

open Isa

/-! ## The flags of the subtraction -/

theorem alu_sub (a b : BitVec 64) : (alu a b false 0b0110#4).result = a - b := by
  change ((a.setWidth 65 - b.setWidth 65).setWidth 64) = a - b
  refine BitVec.eq_of_toNat_eq ?_
  have ha := a.isLt
  have hb := b.isLt
  simp only [BitVec.toNat_setWidth, BitVec.toNat_sub]
  omega

theorem alu_zero (a b : BitVec 64) : (alu a b false 0b0110#4).zero = (a == b) := by
  change ((alu a b false 0b0110#4).result == 0) = _
  rw [alu_sub, Bool.eq_iff_iff, beq_iff_eq, beq_iff_eq]
  exact sub_eq_zero

theorem alu_sign (a b : BitVec 64) : (alu a b false 0b0110#4).sign = (a - b).msb := by
  change (alu a b false 0b0110#4).result.getLsbD 63 = _
  rw [alu_sub, BitVec.msb_eq_getLsbD_last]

/-- Bit 64 of the difference is the borrow. -/
theorem alu_borrow (a b : BitVec 64) : (alu a b false 0b0110#4).overflow = a.ult b := by
  have ha := a.isLt
  have hb := b.isLt
  have hmsb : (a.setWidth 65 - b.setWidth 65).getLsbD 64 = (a.setWidth 65 - b.setWidth 65).msb := by
    rw [BitVec.msb_eq_getLsbD_last]
  change (a.setWidth 65 - b.setWidth 65).getLsbD 64 = _
  rw [hmsb, BitVec.msb_eq_decide, BitVec.ult_eq_decide]
  simp only [BitVec.toNat_sub, BitVec.toNat_setWidth]
  rw [Nat.mod_eq_of_lt (a := a.toNat) (by omega), Nat.mod_eq_of_lt (a := b.toNat) (by omega)]
  exact decide_eq_decide.mpr (by omega)

/-- **The sign of a difference** is the signed order, inverted by an overflow. -/
theorem msb_sub_eq (a b : BitVec 64) : (a - b).msb = (a.slt b ^^ a.ssubOverflow b) := by
  cases hover : a.ssubOverflow b with
  | false =>
      rw [Bool.xor_false, BitVec.msb_eq_toInt, BitVec.slt_eq_decide,
        BitVec.toInt_sub_of_not_ssubOverflow (Bool.eq_false_iff.mp hover)]
      exact decide_eq_decide.mpr (by omega)
  | true =>
      -- the operands differ in sign, and the difference has that of the second
      rw [BitVec.ssubOverflow_eq] at hover
      have hslt : a.slt b = !(a - b).msb := by
        have ha := BitVec.msb_eq_toInt (x := a)
        have hb := BitVec.msb_eq_toInt (x := b)
        rw [BitVec.slt_eq_decide]
        cases hma : a.msb <;> cases hmb : b.msb <;> rw [hma] at ha hover <;>
          rw [hmb] at hb hover <;> simp_all <;> omega
      rw [hslt, Bool.xor_true, Bool.not_not]

namespace Isa

/-- The code of `maindec` for a branch. -/
def BranchOp.code : BranchOp → BitVec 3
  | beq => 0b001#3
  | bne => 0b011#3
  | blt => 0b101#3
  | bge => 0b100#3
  | bltu => 0b110#3
  | bgeu => 0b010#3

/-- The branches that compare as signed numbers. -/
def BranchOp.signed : BranchOp → Bool
  | blt | bge => true
  | _ => false

end Isa

/-- **The branch decision**, from the flags: right except for signed overflow. -/
theorem branching_eq (o : BranchOp) (a b : BitVec 64) :
    branching o.code (alu a b false 0b0110#4).zero (alu a b false 0b0110#4).sign
        (alu a b false 0b0110#4).overflow =
      (o.taken a b ^^ (o.signed && a.ssubOverflow b)) := by
  rw [alu_zero, alu_sign, alu_borrow]
  have hmsb := msb_sub_eq a b
  by_cases hab : a = b
  · subst hab
    have hself : (a - a).msb = false := by rw [BitVec.sub_self]; exact BitVec.msb_zero
    have hslt : a.slt a = false := by simp [BitVec.slt_eq_decide]
    have hult : a.ult a = false := by simp [BitVec.ult_eq_decide]
    rw [hself, hslt, Bool.false_xor] at hmsb
    rw [hself, hult, BEq.rfl, ← hmsb, Bool.and_false, Bool.xor_false]
    cases o <;> simp [branching, BranchOp.code, BranchOp.taken, hslt, hult]
  · have hbeq : (a == b) = false := beq_eq_false_iff_ne.mpr hab
    rw [hbeq, hmsb]
    cases o <;> simp [branching, BranchOp.code, BranchOp.taken, BranchOp.signed, hbeq, hab]

/-! ## Offsets -/

namespace Isa

theorem bImm_branch (o : BranchOp) (a b : BitVec 5) (immHigh : BitVec 7) (immLow : BitVec 5) :
    bImm (Instr.branch o a b immHigh immLow).encode = branchOffset immHigh immLow := by
  have hhigh : (Instr.branch o a b immHigh immLow).encode.extractLsb' 25 7 = immHigh :=
    (slice25_word _ _ _ _ _).trans (funct7_append _ _)
  have hlow : (Instr.branch o a b immHigh immLow).encode.extractLsb' 7 5 = immLow :=
    rd_word _ _ _ _ _
  generalize (Instr.branch o a b immHigh immLow).encode = w at hhigh hlow
  rw [bImm, branchOffset, ← hhigh, ← hlow, slice_slice _ (by decide), slice_slice _ (by decide),
    slice_slice _ (by decide), slice_slice _ (by decide)]

theorem jImm_jal (d : BitVec 5) (imm : BitVec 20) :
    jImm (Instr.jal d imm).encode = jalOffset imm := by
  have himm : (Instr.jal d imm).encode.extractLsb' 12 20 = imm := slice12_wordU _ _ _
  generalize (Instr.jal d imm).encode = w at himm
  rw [jImm, jalOffset, ← himm, slice_slice _ (by decide), slice_slice _ (by decide),
    slice_slice _ (by decide), slice_slice _ (by decide)]

end Isa

/-- The decoder's row for a branch of the instruction set. -/
theorem maindec_branchOp (o : BranchOp) (f12 : BitVec 12) :
    maindec false 0b1100011#7 o.funct3 f12 = transferRow false false o.code := by
  change MainDec.ofBits (branchOutput o.funct3) = _
  cases o <;> decide

/-- Clearing the lowest bit is what the wiring of JALR does. -/
theorem slice_append_one (x : BitVec 64) : x.extractLsb' 1 63 ++ 0#1 = x &&& ~~~1#64 := by
  refine BitVec.eq_of_getLsbD_eq ?_
  intro k hk
  rw [BitVec.getLsbD_append, BitVec.getLsbD_and, BitVec.getLsbD_not]
  cases k with
  | zero => simp
  | succ k => simp [hk, show k < 63 by omega, Nat.add_comm 1 k]

namespace Core

variable {C : Chip} {i : Inputs} {s : State}

/-! ## Stages -/

/-- What a transfer does to PC and registers, from its control word. -/
theorem posedge_transfer (hi : Unstalled i s) {aluSrc regWrite : Bool} {code : BitVec 3}
    (hrow : (ctl C i s).toMainDec = transferRow aluSrc regWrite code) :
    (posedge C i s).pc = (if pcSrc C i s then (exec C i s).pcBranch else s.pc + 4) ∧
      (posedge C i s).regs = regfileNext regWrite (rd (instrMemText C s))
        (if code = 0b111#3 then s.pc + 4 else writeData3 C i s) s.regs := by
  have hd := transferRow_direct aluSrc regWrite code
  rw [← hrow] at hd
  rw [posedge_noExcept hi (exceptSignal_direct hd) hd.trapReturn, hrow]
  exact ⟨rfl, rfl⟩

/-- The first operand of a transfer. -/
theorem readData1_transfer {aluSrc regWrite : Bool} {code : BitVec 3}
    (hrow : (ctl C i s).toMainDec = transferRow aluSrc regWrite code) :
    (dec C i s).readData1 = s.regs (rs1 (instrMemText C s)) := by
  have hsel : (ctl C i s).regSel.getLsbD 0 = false := by rw [hrow]; exact BitVec.getLsbD_zero
  simp only [dec, decode, hsel, Bool.false_eq_true, if_false]

/-- A branch decides on the flags of `rs1 - rs2`. -/
theorem pcSrc_branch {o : BranchOp}
    (hrow : (ctl C i s).toMainDec = transferRow false false o.code) :
    pcSrc C i s = (o.taken (s.regs (rs1 (instrMemText C s))) (s.regs (rs2 (instrMemText C s))) ^^
      (o.signed && (s.regs (rs1 (instrMemText C s))).ssubOverflow
        (s.regs (rs2 (instrMemText C s))))) := by
  have halu : (ctl C i s).aluControl = 0b0110#4 := by rw [ctl_aluControl, hrow]; rfl
  have hsel : (ctl C i s).regSel.getLsbD 1 = false := by rw [hrow]; exact BitVec.getLsbD_zero
  have hsrc : (ctl C i s).aluSrc = false := by rw [hrow]; rfl
  have harith : (ctl C i s).wArith = false := by rw [hrow]; rfl
  have hcode : (ctl C i s).branch = o.code := by rw [hrow]; rfl
  rw [← branching_eq, pcSrc, hcode]
  simp only [exec, execute, halu, hsel, hsrc, harith, readData1_transfer hrow, Bool.false_eq_true,
    if_false]
  rfl

/-- A branch or JAL goes to the PC plus the shifted immediate. -/
theorem pcBranch_relative {regWrite : Bool} {code : BitVec 3}
    (hrow : (ctl C i s).toMainDec = transferRow false regWrite code)
    (hjalr : opcode (instrMemText C s) ≠ 0b1100111#7) :
    (exec C i s).pcBranch = s.pc + signext (instrMemText C s) <<< 1 := by
  have hsrc : (ctl C i s).aluSrc = false := by rw [hrow]; rfl
  have himm : (dec C i s).signImm = signext (instrMemText C s) := if_neg hjalr
  simp only [exec, execute, hsrc, himm, Bool.false_eq_true, if_false]
  exact BitVec.add_comm _ _

theorem pcBranch_jalr {regWrite : Bool} {code : BitVec 3}
    (hrow : (ctl C i s).toMainDec = transferRow true regWrite code)
    (hjalr : opcode (instrMemText C s) = 0b1100111#7) :
    (exec C i s).pcBranch =
      (s.regs (rs1 (instrMemText C s)) + iImm (instrMemText C s)) &&& ~~~1#64 := by
  have hsrc : (ctl C i s).aluSrc = true := by rw [hrow]; rfl
  have himm : (dec C i s).signImm = (dec C i s).readData1 + signext (instrMemText C s) :=
    if_pos hjalr
  rw [readData1_transfer hrow, signext_iImm (.inr (.inl hjalr))] at himm
  simp only [exec, execute, hsrc, himm, if_true]
  exact slice_append_one _

/-! ## Right targets -/

/-- `s'` is where the transfer `x` takes `s`, and the link is as it should be. -/
structure TransfersRight (x : Instr) (s s' : State) : Prop where
  pc : x.nextPc s.pc s.regs = some s'.pc
  regs : s'.regs = match x.link with
    | some rd => writeReg rd (s.pc + 4) s.regs
    | none => s.regs

/-- A signed branch whose subtraction overflows, and that has somewhere to go. -/
def SignedOverflow (s : State) : Instr → Prop
  | .branch o rs1 rs2 immHigh immLow =>
      o.signed = true ∧ (s.regs rs1).ssubOverflow (s.regs rs2) = true ∧
        branchOffset immHigh immLow ≠ 4
  | _ => False

theorem transfer_branch (hi : Unstalled i s) {o : BranchOp} {a b : BitVec 5} {immHigh : BitVec 7}
    {immLow : BitVec 5}
    (hw : instrMemText C s = (Instr.branch o a b immHigh immLow).encode) :
    TransfersRight (.branch o a b immHigh immLow) s (cycle C i s) ↔
      ¬ SignedOverflow s (.branch o a b immHigh immLow) := by
  obtain ⟨hop, -, hf3, ha, hb, -⟩ := fields_of_eq_word hw
  rw [BitVec.extractLsb'_append_eq_right] at hb
  have hrow : (ctl C i s).toMainDec = transferRow false false o.code := by
    rw [ctl_unstalled hi.stall, hop, hf3, maindec_branchOp]
  have htarget : (exec C i s).pcBranch = s.pc + branchOffset immHigh immLow := by
    rw [pcBranch_relative hrow (by rw [hop]; decide), signext_branch hop, hw, bImm_branch]
  obtain ⟨hpc, hregs⟩ := posedge_transfer hi hrow
  rw [htarget, pcSrc_branch hrow, ha, hb] at hpc
  have hsplit : TransfersRight (.branch o a b immHigh immLow) s (cycle C i s) ↔
      (if o.taken (s.regs a) (s.regs b) then s.pc + branchOffset immHigh immLow else s.pc + 4) =
        if (o.taken (s.regs a) (s.regs b) ^^ (o.signed && (s.regs a).ssubOverflow (s.regs b))) then
          s.pc + branchOffset immHigh immLow
        else s.pc + 4 := by
    rw [cycle_eq_posedge hi.reset, ← hpc]
    exact ⟨fun h => Option.some.inj h.pc, fun h => ⟨congrArg some h, hregs⟩⟩
  rw [hsplit, SignedOverflow, ← and_assoc, ← Bool.and_eq_true]
  cases o.signed && (s.regs a).ssubOverflow (s.regs b) with
  | false =>
      rw [Bool.xor_false]
      exact iff_of_true rfl fun h => Bool.false_ne_true h.1
  | true =>
      -- the decision is the wrong way round: both ways must lead to the same place
      rw [Bool.xor_true, and_iff_right rfl, not_not]
      cases o.taken (s.regs a) (s.regs b) with
      | false =>
          simp only [Bool.not_false, Bool.false_eq_true, if_false, if_true]
          exact ⟨fun h => (add_left_cancel h).symm, fun h => by rw [h]⟩
      | true =>
          simp only [Bool.not_true, Bool.false_eq_true, if_false, if_true]
          exact ⟨fun h => add_left_cancel h, fun h => by rw [h]⟩

theorem transfer_jal (hi : Unstalled i s) {d : BitVec 5} {imm : BitVec 20}
    (hw : instrMemText C s = (Instr.jal d imm).encode) :
    TransfersRight (.jal d imm) s (cycle C i s) := by
  obtain ⟨hop, hd, -⟩ := fields_of_eq_word hw
  have hrow : (ctl C i s).toMainDec = transferRow false true 0b111#3 := by
    rw [ctl_unstalled hi.stall, hop, maindec_jal]
  have htarget : (exec C i s).pcBranch = s.pc + jalOffset imm := by
    rw [pcBranch_relative hrow (by rw [hop]; decide), signext_jal hop, hw, jImm_jal]
  have htaken : pcSrc C i s = true := by rw [pcSrc, hrow]; rfl
  obtain ⟨hpc, hregs⟩ := posedge_transfer hi hrow
  rw [htaken, if_pos rfl, htarget] at hpc
  rw [if_pos rfl, hd, regfileNext_eq_writeReg] at hregs
  rw [cycle_eq_posedge hi.reset]
  exact ⟨congrArg some hpc.symm, hregs⟩

theorem transfer_jalr (hi : Unstalled i s) {d a : BitVec 5} {imm : BitVec 12}
    (hw : instrMemText C s = (Instr.jalr d a imm).encode) :
    TransfersRight (.jalr d a imm) s (cycle C i s) := by
  obtain ⟨hop, hd, -, ha, -, hf12⟩ := fields_of_eq_word hw
  have hrow : (ctl C i s).toMainDec = transferRow true true 0b111#3 := by
    rw [ctl_unstalled hi.stall, hop, maindec_jalr]
  have himm : iImm (instrMemText C s) = imm.signExtend 64 := congrArg (BitVec.signExtend 64) hf12
  have htarget : (exec C i s).pcBranch = (s.regs a + imm.signExtend 64) &&& ~~~1#64 := by
    rw [pcBranch_jalr hrow hop, ha, himm]
  have htaken : pcSrc C i s = true := by rw [pcSrc, hrow]; rfl
  obtain ⟨hpc, hregs⟩ := posedge_transfer hi hrow
  rw [htaken, if_pos rfl, htarget] at hpc
  rw [if_pos rfl, hd, regfileNext_eq_writeReg] at hregs
  rw [cycle_eq_posedge hi.reset]
  exact ⟨congrArg some hpc.symm, hregs⟩

/--
**Control transfer.** A branch or jump is the one of the instruction set exactly if it is
no signed branch on an overflowing subtraction.
-/
theorem transfer_iff (hi : Unstalled i s) {x : Instr} (hw : instrMemText C s = x.encode)
    (hx : (x.nextPc s.pc s.regs).isSome = true) :
    TransfersRight x s (cycle C i s) ↔ ¬ SignedOverflow s x := by
  cases x
  case branch => exact transfer_branch hi hw
  case jal => exact iff_of_true (transfer_jal hi hw) id
  case jalr => exact iff_of_true (transfer_jalr hi hw) id
  all_goals exact absurd hx Bool.false_ne_true

/-- `beq x0, x0, 8`. -/
theorem transfer_beq :
    TransfersRight (.branch .beq 0 0 0 0b01000#5) (State.released (fun _ => 0) 0)
      (cycle (Chip.ofProgram [0x00000463#32]) Inputs.idle (State.released (fun _ => 0) 0)) :=
  (transfer_iff ⟨rfl, by decide +kernel⟩ (by decide +kernel) rfl).mpr
    fun h => Bool.false_ne_true h.1

/-- `addi x1, x0, 1`, `slli x2, x1, 63` and `blt x2, x1, 8`. -/
def minLtOne : Chip := Chip.ofProgram [0x00100093#32, 0x03f09113#32, 0x00114463#32]

/-- The least number is not less than one. -/
theorem transfer_blt_overflow :
    ¬ ∀ (C : Chip) (i : Inputs) (s : State) (x : Instr), Reachable C s → Unstalled i s →
      instrMemText C s = x.encode → (x.nextPc s.pc s.regs).isSome = true →
        TransfersRight x s (cycle C i s) := by
  intro h
  have hright := h minLtOne Inputs.idle
    (run minLtOne [Inputs.idle, Inputs.idle] (State.released (fun _ => 0) 0))
    (.branch .blt 2 1 0 0b01000#5) ((reachable_released _ _ _).run _) ⟨rfl, by decide +kernel⟩
    (by decide +kernel) rfl
  have hpc := hright.pc
  revert hpc
  decide +kernel

end Core

end PassiFlo
