import Mathlib

/-!
# Instruction decoding

The purely combinational half of the controller: `maindec`, the two ALU decoders
and the immediate generator. Every definition is the module of the same name, with
the bit patterns of the source left as they are; the record that follows
`maindecOutput` only names the slices of its 23 bits.
-/

namespace PassiFlo

/-! ## Fields of an instruction word -/

/-- `instr[6:0]`. -/
def opcode (w : BitVec 32) : BitVec 7 := w.extractLsb' 0 7

/-- `instr[11:7]`. -/
def rd (w : BitVec 32) : BitVec 5 := w.extractLsb' 7 5

/-- `instr[14:12]`. -/
def funct3 (w : BitVec 32) : BitVec 3 := w.extractLsb' 12 3

/-- `instr[19:15]`. -/
def rs1 (w : BitVec 32) : BitVec 5 := w.extractLsb' 15 5

/-- `instr[24:20]`. -/
def rs2 (w : BitVec 32) : BitVec 5 := w.extractLsb' 20 5

/-- `instr[31:20]`. -/
def funct12 (w : BitVec 32) : BitVec 12 := w.extractLsb' 20 12

/-! ## maindec -/

/-- The branch arm of `maindec`. -/
def branchOutput (funct3 : BitVec 3) : BitVec 23 :=
  if funct3 = 0b000#3 then 0b000_000_0_00_000_00_0_000_001_01#23       -- beq
  else if funct3 = 0b001#3 then 0b000_000_0_00_000_00_0_000_011_01#23  -- bne
  else if funct3 = 0b100#3 then 0b000_000_0_00_000_00_0_000_101_01#23  -- blt
  else if funct3 = 0b101#3 then 0b000_000_0_00_000_00_0_000_100_01#23  -- bge
  else if funct3 = 0b110#3 then 0b000_000_0_00_000_00_0_000_110_01#23  -- bltu
  else if funct3 = 0b111#3 then 0b000_000_0_00_000_00_0_000_010_01#23  -- bgeu
  else 0b000_000_0_00_000_00_0_000_000_01#23

/-- The load arm of `maindec`. -/
def loadOutput (funct3 : BitVec 3) : BitVec 23 :=
  if funct3 = 0b000#3 then 0b000_000_0_00_111_11_0_000_000_00#23       -- lb
  else if funct3 = 0b100#3 then 0b000_000_0_00_111_01_0_000_000_00#23  -- lbu
  else if funct3 = 0b001#3 then 0b000_000_0_00_111_11_0_001_000_00#23  -- lh
  else if funct3 = 0b101#3 then 0b000_000_0_00_111_01_0_001_000_00#23  -- lhu
  else if funct3 = 0b010#3 then 0b000_000_0_00_111_11_0_011_000_00#23  -- lw
  else if funct3 = 0b110#3 then 0b000_000_0_00_111_01_0_011_000_00#23  -- lwu
  else 0b000_000_0_00_111_11_0_111_000_00#23                           -- ld

/-- The store arm of `maindec`. -/
def storeOutput (funct3 : BitVec 3) : BitVec 23 :=
  if funct3 = 0b000#3 then 0b000_000_0_00_100_00_1_000_000_00#23
  else if funct3 = 0b001#3 then 0b000_000_0_00_100_00_1_001_000_00#23
  else if funct3 = 0b010#3 then 0b000_000_0_00_100_00_1_011_000_00#23
  else 0b000_000_0_00_100_00_1_111_000_00#23

/-- The SYSTEM arm of `maindec`. -/
def systemOutput (funct3 : BitVec 3) (funct12 : BitVec 12) : BitVec 23 :=
  if funct3 = 0b000#3 then
    if funct12 = 0x001#12 then 0b000_001_0_00_000_00_0_000_000_00#23       -- ebreak
    else if funct12 = 0x000#12 then 0b000_010_0_00_000_00_0_000_000_00#23  -- ecall
    else if funct12 = 0x302#12 then 0b100_000_0_00_000_00_0_000_000_00#23  -- mret
    -- sret and wfi: same as illegal for now
    else 0b000_100_0_00_000_00_0_000_000_00#23
  else if funct3 = 0b001#3 ∨ funct3 = 0b010#3 ∨ funct3 = 0b011#3 then
    0b011_000_0_00_001_00_0_000_000_10#23                                  -- csrrx
  else if funct3 = 0b101#3 ∨ funct3 = 0b110#3 ∨ funct3 = 0b111#3 then
    0b011_000_0_00_101_00_0_000_000_10#23                                  -- csrrxi
  else 0b000_100_0_00_000_00_0_000_000_00#23

/--
The `outputSignal` of `maindec`. The source also computes `csrPrivCheck` from the
privilege mode, but nothing reads it, so the mode is not an argument here.
-/
def maindecOutput (coprocessorStall : Bool) (op : BitVec 7) (funct3 : BitVec 3)
    (funct12 : BitVec 12) : BitVec 23 :=
  -- soft reset or fault injection
  if coprocessorStall then 0
  else if op = 0b1100011#7 then branchOutput funct3
  -- R format
  else if op = 0b0110011#7 then 0b000_000_0_00_001_00_0_000_000_10#23
  -- R format (32bit)
  else if op = 0b0111011#7 then 0b000_000_1_00_001_00_0_000_000_10#23
  -- I format
  else if op = 0b0010011#7 then 0b000_000_0_00_101_00_0_000_000_11#23
  -- I format (32bit)
  else if op = 0b0011011#7 then 0b000_000_1_00_101_00_0_000_000_11#23
  else if op = 0b0000011#7 then loadOutput funct3
  else if op = 0b0100011#7 then storeOutput funct3
  -- LUI
  else if op = 0b0110111#7 then 0b000_000_0_01_101_00_0_000_000_00#23
  -- AUIPC
  else if op = 0b0010111#7 then 0b000_000_0_10_101_00_0_000_000_00#23
  -- JAL
  else if op = 0b1101111#7 then 0b000_000_0_00_001_00_0_000_111_01#23
  -- JALR
  else if op = 0b1100111#7 then 0b000_000_0_00_101_00_0_000_111_01#23
  else if op = 0b1110011#7 then systemOutput funct3 funct12
  -- FENCE
  else if op = 0b0001111#7 then 0b000_000_0_00_000_00_0_000_000_00#23
  -- undefined / illegal instruction
  else 0b000_100_0_00_000_00_0_000_000_00#23

/-- The outputs of `maindec`. -/
structure MainDec where
  trapReturn : Bool
  aluSelect : Bool
  csrWriteEnable : Bool
  /-- `[2]`: illegal, `[1]`: ecall, `[0]`: ebreak. -/
  exceptSignal : BitVec 3
  wArith : Bool
  /-- `[0]` forces `rs1` to `x0`, `[1]` selects the PC as first operand. -/
  regSel : BitVec 2
  aluSrc : Bool
  memtoReg : Bool
  regWrite : Bool
  /-- `[0]` is the read enable, `[1]` asks for sign extension. -/
  memRead : BitVec 2
  memWrite : Bool
  /-- 000: byte, 001: half, 011: word, 111: double. -/
  memWidth : BitVec 3
  branch : BitVec 3
  aluOp : BitVec 2
  deriving DecidableEq

/-- The slices of `outputSignal`. -/
def MainDec.ofBits (o : BitVec 23) : MainDec where
  trapReturn := o.getLsbD 22
  aluSelect := o.getLsbD 21
  csrWriteEnable := o.getLsbD 20
  exceptSignal := o.extractLsb' 17 3
  wArith := o.getLsbD 16
  regSel := o.extractLsb' 14 2
  aluSrc := o.getLsbD 13
  memtoReg := o.getLsbD 12
  regWrite := o.getLsbD 11
  memRead := o.extractLsb' 9 2
  memWrite := o.getLsbD 8
  memWidth := o.extractLsb' 5 3
  branch := o.extractLsb' 2 3
  aluOp := o.extractLsb' 0 2

/-- Main decoder. -/
def maindec (coprocessorStall : Bool) (op : BitVec 7) (funct3 : BitVec 3)
    (funct12 : BitVec 12) : MainDec :=
  MainDec.ofBits (maindecOutput coprocessorStall op funct3 funct12)

/-! ## ALU decoders -/

/-- ALU control decoder. Only bit 5 of `funct7` is looked at. -/
def aludec (funct7 : BitVec 7) (funct3 : BitVec 3) (aluop : BitVec 2) : BitVec 4 :=
  let f5 := funct7.getLsbD 5
  -- loads, stores or upper immediates
  if aluop = 0b00#2 then 0b0010#4
  -- branches
  else if aluop = 0b01#2 then 0b0110#4
  -- R format
  else if aluop = 0b10#2 then
    if f5 = false ∧ funct3 = 0b000#3 then 0b0010#4       -- add
    else if f5 = true ∧ funct3 = 0b000#3 then 0b0110#4   -- sub
    else if f5 = false ∧ funct3 = 0b111#3 then 0b0000#4  -- and
    else if f5 = false ∧ funct3 = 0b110#3 then 0b0001#4  -- or
    else if f5 = false ∧ funct3 = 0b100#3 then 0b1001#4  -- xor
    else if f5 = false ∧ funct3 = 0b010#3 then 0b1110#4  -- slt
    else if f5 = false ∧ funct3 = 0b011#3 then 0b1010#4  -- sltu
    else if funct3 = 0b001#3 then 0b0111#4               -- sll
    else if f5 = false ∧ funct3 = 0b101#3 then 0b0011#4  -- srl
    else if f5 = true ∧ funct3 = 0b101#3 then 0b1011#4   -- sra
    else 0b1111#4
  -- I format
  else if aluop = 0b11#2 then
    if funct3 = 0b000#3 then 0b0010#4                    -- addi
    else if funct3 = 0b111#3 then 0b0000#4               -- andi
    else if funct3 = 0b110#3 then 0b0001#4               -- ori
    else if funct3 = 0b100#3 then 0b1001#4               -- xori
    else if funct3 = 0b010#3 then 0b1110#4               -- slti
    else if funct3 = 0b011#3 then 0b1010#4               -- sltiu
    else if funct3 = 0b001#3 then 0b0111#4               -- slli
    else if f5 = false ∧ funct3 = 0b101#3 then 0b0011#4  -- srli
    else if f5 = true ∧ funct3 = 0b101#3 then 0b1011#4   -- srai
    else 0b1111#4
  else 0b1111#4

/-- Decoder of the second ALU, which only serves the CSR instructions. -/
def aludecAtomic (funct3 : BitVec 3) (aluop : BitVec 2) : BitVec 4 :=
  -- LR / SC
  if aluop = 0b00#2 then 0b1111#4
  -- AMO operations
  else if aluop = 0b01#2 then 0b1111#4
  -- CSRRX
  else if aluop = 0b10#2 then
    if funct3 = 0b001#3 ∨ funct3 = 0b101#3 then 0b0000#4
    else if funct3 = 0b010#3 ∨ funct3 = 0b110#3 then 0b0001#4
    else if funct3 = 0b011#3 ∨ funct3 = 0b111#3 then 0b0011#4
    else 0b1111#4
  -- reserved
  else 0b1111#4

/-! ## controller -/

/-- The outputs of `controller`: those of `maindec`, and the ALU control. -/
structure Control extends MainDec where
  aluControl : BitVec 4
  breakSrc : Bool

/-- Controller. -/
def controller (instr : BitVec 7) (coprocessorStall : Bool) (funct12 : BitVec 12)
    (funct3 : BitVec 3) : Control :=
  let d := maindec coprocessorStall instr funct3 funct12
  let aluControlNormal := aludec (funct12.extractLsb' 5 7) funct3 d.aluOp
  let aluControlAtomic := aludecAtomic funct3 d.aluOp
  { d with
    aluControl := if d.aluSelect then aluControlAtomic else aluControlNormal
    breakSrc := d.exceptSignal.getLsbD 0 }

/-! ## signext -/

/-- `{n{b}}`. -/
def rep (n : Nat) (b : Bool) : BitVec n := BitVec.fill n b

/--
Immediate generator. B and J immediates come out halved (`execute` shifts them),
and the I-32 immediate is sign extended to 32 bits only.
-/
def signext (a : BitVec 32) : BitVec 64 :=
  let s := a.getLsbD 31
  -- S format (stores)
  if opcode a = 0b0100011#7 then rep 52 s ++ a.extractLsb' 25 7 ++ a.extractLsb' 7 5
  -- B format (branch)
  else if opcode a = 0b1100011#7 then
    rep 52 s ++ BitVec.ofBool s ++ a.extractLsb' 7 1 ++ a.extractLsb' 25 6 ++ a.extractLsb' 8 4
  -- I format: arithmetic, JALR, loads
  else if opcode a = 0b0010011#7 ∨ opcode a = 0b1100111#7 ∨ opcode a = 0b0000011#7 then
    rep 52 s ++ a.extractLsb' 20 12
  -- JAL
  else if opcode a = 0b1101111#7 then
    rep 44 s ++ BitVec.ofBool s ++ a.extractLsb' 12 8 ++ a.extractLsb' 20 1 ++ a.extractLsb' 21 10
  -- LUI, AUIPC
  else if opcode a = 0b0110111#7 ∨ opcode a = 0b0010111#7 then
    rep 32 s ++ a.extractLsb' 12 20 ++ 0#12
  -- I-32 format
  else if opcode a = 0b0011011#7 then 0#32 ++ rep 20 s ++ a.extractLsb' 20 12
  -- System
  else if opcode a = 0b1110011#7 then rep 59 (a.getLsbD 19) ++ a.extractLsb' 15 5
  else rep 32 s ++ a

end PassiFlo
