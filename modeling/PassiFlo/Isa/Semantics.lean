import PassiFlo.Isa.Instr

/-!
# What the instructions compute

The values RV64I and Zicsr define, operation by operation: the results of the
computational instructions, the conditions and targets of the transfers, the
read-modify-write of the CSR instructions, and the causes of the traps. The ALUs of the
core play no part in it.
-/

namespace PassiFlo

namespace Isa

/-! ## Registers -/

/-- A register write; `x0` is not written. -/
def writeReg (rd : BitVec 5) (v : BitVec 64) (regs : BitVec 5 → BitVec 64) :
    BitVec 5 → BitVec 64 :=
  if rd = 0 then regs else Function.update regs rd v

theorem writeReg_eq_iff {rd : BitVec 5} {v v' : BitVec 64} {regs : BitVec 5 → BitVec 64} :
    writeReg rd v regs = writeReg rd v' regs ↔ rd = 0 ∨ v = v' := by
  unfold writeReg
  by_cases h : rd = 0
  · rw [if_pos h, if_pos h]
    exact iff_of_true rfl (.inl h)
  · rw [if_neg h, if_neg h, or_iff_right h]
    refine ⟨fun heq => ?_, fun heq => by rw [heq]⟩
    have hrd := congrFun heq rd
    rwa [Function.update_self, Function.update_self] at hrd

/-! ## Computational instructions -/

/-- The register operations on 64 bits; shifts take the low six bits of `b`. -/
def RegOp.eval (a b : BitVec 64) : RegOp → BitVec 64
  | add => a + b
  | sub => a - b
  | sll => a <<< (b.extractLsb' 0 6).toNat
  | slt => if a.slt b then 1 else 0
  | sltu => if a.ult b then 1 else 0
  | xor => a ^^^ b
  | srl => a >>> (b.extractLsb' 0 6).toNat
  | sra => a.sshiftRight (b.extractLsb' 0 6).toNat
  | or => a ||| b
  | and => a &&& b

/-- The word operations; shifts take the low five bits of `b`. -/
def RegOpW.evalWord (a b : BitVec 32) : RegOpW → BitVec 32
  | addw => a + b
  | subw => a - b
  | sllw => a <<< (b.extractLsb' 0 5).toNat
  | srlw => a >>> (b.extractLsb' 0 5).toNat
  | sraw => a.sshiftRight (b.extractLsb' 0 5).toNat

/-- The word operations compute on the low halves and sign extend the result. -/
def RegOpW.eval (a b : BitVec 64) (o : RegOpW) : BitVec 64 :=
  (o.evalWord (a.extractLsb' 0 32) (b.extractLsb' 0 32)).signExtend 64

/-- The register form of an immediate operation. -/
def ImmOp.toRegOp : ImmOp → RegOp
  | addi => .add
  | slti => .slt
  | sltiu => .sltu
  | xori => .xor
  | ori => .or
  | andi => .and

def ShiftOp.toRegOp : ShiftOp → RegOp
  | sll => .sll
  | srl => .srl
  | sra => .sra

def ShiftOp.toRegOpW : ShiftOp → RegOpW
  | sll => .sllw
  | srl => .srlw
  | sra => .sraw

/-- `rd` and the value a computational instruction puts there. -/
def Instr.result (pc : BitVec 64) (regs : BitVec 5 → BitVec 64) :
    Instr → Option (BitVec 5 × BitVec 64)
  | lui rd imm => some (rd, (imm ++ 0#12).signExtend 64)
  | auipc rd imm => some (rd, pc + (imm ++ 0#12).signExtend 64)
  | opImm o rd rs1 imm => some (rd, o.toRegOp.eval (regs rs1) (imm.signExtend 64))
  | shiftImm o rd rs1 shamt => some (rd, o.toRegOp.eval (regs rs1) (shamt.setWidth 64))
  | addiw rd rs1 imm => some (rd, RegOpW.addw.eval (regs rs1) (imm.signExtend 64))
  | shiftImmW o rd rs1 shamt => some (rd, o.toRegOpW.eval (regs rs1) (shamt.setWidth 64))
  | op o rd rs1 rs2 => some (rd, o.eval (regs rs1) (regs rs2))
  | opW o rd rs1 rs2 => some (rd, o.eval (regs rs1) (regs rs2))
  | _ => none

/-! ## Transfers -/

/-- The condition of a branch. -/
def BranchOp.taken (a b : BitVec 64) : BranchOp → Bool
  | beq => a == b
  | bne => a != b
  | blt => a.slt b
  | bge => !a.slt b
  | bltu => a.ult b
  | bgeu => !a.ult b

/-- B-immediate. -/
def branchOffset (immHigh : BitVec 7) (immLow : BitVec 5) : BitVec 64 :=
  (immHigh.extractLsb' 6 1 ++ immLow.extractLsb' 0 1 ++ immHigh.extractLsb' 0 6 ++
    immLow.extractLsb' 1 4 ++ 0#1).signExtend 64

/-- J-immediate. -/
def jalOffset (imm : BitVec 20) : BitVec 64 :=
  (imm.extractLsb' 19 1 ++ imm.extractLsb' 0 8 ++ imm.extractLsb' 8 1 ++ imm.extractLsb' 9 10 ++
    0#1).signExtend 64

/-- Where a transfer goes. -/
def Instr.nextPc (pc : BitVec 64) (regs : BitVec 5 → BitVec 64) : Instr → Option (BitVec 64)
  | branch o rs1 rs2 immHigh immLow =>
      some (if o.taken (regs rs1) (regs rs2) then pc + branchOffset immHigh immLow else pc + 4)
  | jal _ imm => some (pc + jalOffset imm)
  | jalr _ rs1 imm => some ((regs rs1 + imm.signExtend 64) &&& ~~~1#64)
  | _ => none

/-- The register a transfer links in. -/
def Instr.link : Instr → Option (BitVec 5)
  | jal rd _ => some rd
  | jalr rd _ _ => some rd
  | _ => none

/-! ## CSR instructions -/

/-- The forms whose operand is the `rs1` field itself. -/
def CsrOp.immediate : CsrOp → Bool
  | csrrwi | csrrsi | csrrci => true
  | _ => false

/-- The operand: a register, or a zero-extended 5-bit immediate. -/
def CsrOp.operand (regs : BitVec 5 → BitVec 64) (rs1 : BitVec 5) (o : CsrOp) : BitVec 64 :=
  if o.immediate then rs1.setWidth 64 else regs rs1

/-- What the operation makes of the old value. -/
def CsrOp.eval (operand old : BitVec 64) : CsrOp → BitVec 64
  | csrrw | csrrwi => operand
  | csrrs | csrrsi => old ||| operand
  | csrrc | csrrci => old &&& ~~~operand

/-- The set and clear forms do not write when their operand field is zero. -/
def CsrOp.writes (rs1 : BitVec 5) : CsrOp → Bool
  | csrrw | csrrwi => true
  | _ => rs1 != 0

/-! ## Traps -/

/-- The exceptions the core knows. -/
inductive Trap | illegal | ecall | ebreak | load | store
  deriving DecidableEq

/-- The cause of a trap out of mode U, S or M. -/
def Trap.cause (mode : BitVec 2) : Trap → Option (BitVec 64)
  | illegal => some 2
  | ebreak => some 3
  | load => some 4
  | store => some 6
  | ecall =>
      if mode = 0b00#2 then some 8
      else if mode = 0b01#2 then some 9
      else if mode = 0b11#2 then some 11
      else none

end Isa

end PassiFlo
