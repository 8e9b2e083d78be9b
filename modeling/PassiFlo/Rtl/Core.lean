import PassiFlo.Rtl.Alu
import PassiFlo.Rtl.Memory
import PassiFlo.Rtl.Csr

/-!
# The core

`core` and the pipeline stages of its `datapath`. A wire of the source is a function
of what the design does not fix (`Chip`), of the inputs of the cycle and of the state
of the flip-flops; it keeps the name of the wire. `posedge` is one rising clock edge
and `settle` the asynchronous resets, so that a clock cycle is `posedge` after
`settle`.
-/

namespace PassiFlo

/-! ## What the design leaves open -/

/-- The parts of the chip that are not in the design files. -/
structure Chip where
  /-- Contents of the instruction ROM, from `imem_init.txt`. -/
  rom : BitVec 10 → BitVec 32
  /-- The value on `csrOut[0]`, which nothing drives. -/
  undriven : BitVec 64
  /-- Clock edge of the data RAM. -/
  ramClock : Ram → RamPort → Ram
  /-- Output pins of the data RAM. -/
  ramQ : Ram → RamPort → BitVec 64

/-- The data RAM behaves as the vendor's block does. -/
def Chip.Altsyncram (C : Chip) : Prop := AltsyncramSpec C.ramClock C.ramQ

/-- The inputs of the core during one clock cycle. -/
structure Inputs where
  reset : Bool
  /-- `coprocessorIOControl`. -/
  control : BitVec 5
  /-- `coprocessorIOAddr`. -/
  addr : BitVec 15
  /-- `coprocessorIODataOut`. -/
  dataOut : BitVec 64

namespace Inputs

/-- Write a register: the mask on `dataOut` is xored into it. -/
def weDB (i : Inputs) : Bool := i.control.getLsbD 0

/-- Write the data memory. -/
def memWe (i : Inputs) : Bool := i.control.getLsbD 1

/-- Read the data memory. -/
def memRe (i : Inputs) : Bool := i.control.getLsbD 2

/-- Read a CSR, or write one of the two debug registers. -/
def csrDB (i : Inputs) : Bool := i.control.getLsbD 3

/-- Stop at the cycle count of `cycleStall_flag`. -/
def stopAt (i : Inputs) : Bool := i.control.getLsbD 4

end Inputs

/-- Every flip-flop and memory of the core. -/
@[ext]
structure State where
  pc : BitVec 64
  regs : BitVec 5 → BitVec 64
  ram : Ram
  mode : BitVec 2
  mstatus : BitVec 64
  mcause : BitVec 64
  mtvec : BitVec 64
  mepc : BitVec 64
  cycles : BitVec 64
  cycleStallFlag : BitVec 64
  ebreakFlag : BitVec 1

/-! ## Pipeline stages -/

/-- Next value of the PC. -/
def fetchNext (reset pcSrc : Bool) (pcTrapTrigger pcTrapReturn : BitVec 64)
    (trapReturn interruptSignal : Bool) (pcBranch : BitVec 64) (pcEnable : Bool)
    (pc : BitVec 64) : BitVec 64 :=
  let pc4 := pc + 4
  let branchMux := if pcSrc then pcBranch else pc4
  let trapReturnMux := if trapReturn then pcTrapReturn else branchMux
  -- exceptions take precedence
  let trapEntryMux := if interruptSignal then pcTrapTrigger else trapReturnMux
  flopre reset pcEnable trapEntryMux pc

/-- `exceptSignal` of `except_F`: the check of `PC[1:0]` is commented out. -/
def exceptF (_pc : BitVec 64) (_iAlign : Bool) : BitVec 4 := 0b0000#4

/-- What `decode` reads. -/
structure DecodeOut where
  signImm : BitVec 64
  csrRead : BitVec 64
  readData1 : BitVec 64
  readData2 : BitVec 64
  readRegDataDB : BitVec 64

/-- The read half of `decode`. -/
def decode (regs : BitVec 5 → BitVec 64) (csrOut : Fin 6 → BitVec 64) (instr : BitVec 32)
    (regSel0 csrDB : Bool) (csrAddrDB : BitVec 12) (readRegDB : BitVec 5) : DecodeOut :=
  let rs1 := if regSel0 then 0 else rs1 instr
  let readData1 := regs rs1
  { readData1 := readData1
    readData2 := regs (rs2 instr)
    readRegDataDB := regs readRegDB
    csrRead := csrDec 0 (if csrDB then csrAddrDB else funct12 instr) csrOut
    -- early calculation of linked address (JALR)
    signImm := if opcode instr = 0b1100111#7 then readData1 + signext instr else signext instr }

/-- The write port of the register file; `x0` is never written. -/
def regfileNext (we3 : Bool) (wa3 : BitVec 5) (wd3 : BitVec 64) (ram : BitVec 5 → BitVec 64) :
    BitVec 5 → BitVec 64 :=
  if we3 && wa3 != 0 then Function.update ram wa3 wd3 else ram

/-- The write half of `decode`: the debug port takes the register file over. -/
def decodeNext (regWrite : Bool) (branch : BitVec 3) (instr : BitVec 32)
    (writeData3 pc4 readRegDataDB : BitVec 64) (weDB : Bool) (writeRegDB : BitVec 5)
    (writeDataDB : BitVec 64) (regs : BitVec 5 → BitVec 64) : BitVec 5 → BitVec 64 :=
  -- early write of return address
  let writeData3 := if branch = 0b111#3 then pc4 else writeData3
  let writeMaskDB := readRegDataDB ^^^ writeDataDB
  regfileNext (regWrite || weDB) (if weDB then writeRegDB else rd instr)
    (if weDB then writeMaskDB else writeData3) regs

/-- The outputs of `execute`. -/
structure ExecuteOut where
  aluResult : BitVec 64
  pcBranch : BitVec 64
  pc4 : BitVec 64
  result1Atom : BitVec 64
  zero : Bool
  overflow : Bool
  sign : Bool

/-- Execute stage. -/
def execute (pc readData1 readData2 signImm csrRead : BitVec 64) (aluSrc regSel1 wArith
    aluSelect : Bool) (aluControl : BitVec 4) : ExecuteOut :=
  let op1 := if regSel1 then pc else readData1
  let op2 := if aluSrc then signImm else readData2
  let a := alu (if wArith then 0#32 ++ op1.extractLsb' 0 32 else op1)
    (if wArith then 0#32 ++ op2.extractLsb' 0 32 else op2) wArith aluControl
  let atomic := atomAlu (if aluSrc then signImm else readData1) csrRead aluControl
  let aluResultNormal := if wArith then rep 32 (a.result.getLsbD 31) ++ a.result.extractLsb' 0 32
    else a.result
  { aluResult := if aluSelect then atomic.1 else aluResultNormal
    pcBranch := if aluSrc then signImm.extractLsb' 1 63 ++ 0#1 else (signImm <<< 1) + pc
    pc4 := pc + 4
    result1Atom := atomic.2
    zero := a.zero
    overflow := a.overflow
    sign := a.sign }

/-- `exceptSignal` of `core`, in the order of the exception codes. -/
def packExcept (f : BitVec 4) (d : BitVec 3) (e : BitVec 7) : BitVec 16 :=
  e.extractLsb' 5 1 ++ 0#1 ++ e.extractLsb' 4 1 ++ f.extractLsb' 2 1 ++ d.extractLsb' 1 1 ++ 0#1 ++
    d.extractLsb' 1 1 ++ d.extractLsb' 1 1 ++ e.extractLsb' 0 4 ++
    BitVec.ofBool (e.getLsbD 5 || d.getLsbD 0 || f.getLsbD 2) ++ d.extractLsb' 2 1 ++
    f.extractLsb' 0 2

namespace Core

variable (C : Chip) (i : Inputs) (s : State)

/-! ## Wires -/

/-- The CSR values the read decoder sees. -/
def csrOut : Fin 6 → BitVec 64
  | 0 => C.undriven
  | 1 => s.mstatus
  | 2 => s.mcause
  | 3 => s.mtvec
  | 4 => s.mepc
  | 5 => s.cycles

def cycleStall : Bool := s.cycleStallFlag == s.cycles && i.stopAt

/-- `|{cycleStall, coprocessorIOControl[3:0]}`. -/
def coprocessorStall : Bool := cycleStall i s || i.csrDB || i.memRe || i.memWe || i.weDB

def instrMemText : BitVec 32 := C.rom (s.pc.extractLsb' 2 10)

def ctl : Control :=
  controller (opcode (instrMemText C s)) (coprocessorStall i s) (funct12 (instrMemText C s))
    (funct3 (instrMemText C s))

def dec : DecodeOut :=
  decode s.regs (csrOut C s) (instrMemText C s) ((ctl C i s).regSel.getLsbD 0)
    (i.csrDB) (i.addr.extractLsb' 0 12) (i.addr.extractLsb' 0 5)

def exec : ExecuteOut :=
  execute s.pc (dec C i s).readData1 (dec C i s).readData2 (dec C i s).signImm (dec C i s).csrRead
    (ctl C i s).aluSrc ((ctl C i s).regSel.getLsbD 1) (ctl C i s).wArith (ctl C i s).aluSelect
    (ctl C i s).aluControl

/-- `DM_addr`. -/
def dmAddr : BitVec 64 := (exec C i s).aluResult

/-- `DM_writeData`. -/
def dmWriteData : BitVec 64 := (dec C i s).readData2

/-- `DM_writeEnable`. -/
def dmWriteEnable : Bool := (ctl C i s).memWrite

/-- `DM_readEnable`. -/
def dmReadEnable : Bool := (ctl C i s).memRead.getLsbD 0

def exceptSignalF : BitVec 4 := exceptF s.pc false

def exceptSignalE : BitVec 7 :=
  exceptE (dmAddr C i s) (BitVec.ofBool (ctl C i s).memWrite ++ (ctl C i s).memRead.extractLsb' 0 1)
    (ctl C i s).memWidth

def exceptSignal : BitVec 16 :=
  packExcept (exceptSignalF s) (ctl C i s).exceptSignal (exceptSignalE C i s)

def interruptSignal : BitVec 16 := 0

def breakSrc : BitVec 3 :=
  BitVec.ofBool (ctl C i s).breakSrc ++ (exceptSignalE C i s).extractLsb' 6 1 ++
    (exceptSignalF s).extractLsb' 3 1

/-- `csrOut[1][3]`. -/
def mie : Bool := s.mstatus.getLsbD 3

def trapTrigger : BitVec 16 := ExceptController.trapTrigger (mie s) (exceptSignal C i s)

/-- The pins of `dataMem`: the host takes the port over. -/
def dmemPort : RamPort :=
  let host := i.memRe || i.memWe
  let offset := if host then i.addr.extractLsb' 0 3 else (dmAddr C i s).extractLsb' 0 3
  let m := memWriteMask offset
    (if i.memWe then 0b111#3 else (ctl C i s).memWidth)
    (if i.memWe then i.dataOut else dmWriteData C i s)
  { data := m.2
    address := if host then i.addr.extractLsb' 3 12 else (dmAddr C i s).extractLsb' 3 12
    rden := i.memRe || dmReadEnable C i s
    byteena := m.1
    wren := i.memWe || dmWriteEnable C i s }

/-- Output of `dataMem`. -/
def readData : BitVec 64 := C.ramQ s.ram (dmemPort C i s)

def readDataMasked : BitVec 64 :=
  memReadMask (readData C i s) ((ctl C i s).memRead.getLsbD 1) (ctl C i s).memWidth
    ((dmAddr C i s).extractLsb' 0 3)

def pcSrc : Bool :=
  branching (ctl C i s).branch (exec C i s).zero (exec C i s).sign (exec C i s).overflow

/-- Output of `writeback`. -/
def writeData3 : BitVec 64 :=
  if (ctl C i s).memtoReg then readDataMasked C i s else dmAddr C i s

def csrIn : BitVec 64 := (exec C i s).result1Atom

def csrAddr : BitVec 12 := funct12 (instrMemText C s)

def csrWriteEnable : Bool := (ctl C i s).csrWriteEnable

def mstatusCSREnable : Bool := csrAddr C s == 0x300#12 && csrWriteEnable C i s

/-- `coprocessorIODataIn`. -/
def coprocessorIODataIn : BitVec 64 :=
  if i.memRe then readData C i s
  else if i.addr.getLsbD 5 then s.pc
  else if i.csrDB then (dec C i s).csrRead else (dec C i s).readRegDataDB

/-- `coprocessorIODebugFlags`. -/
def coprocessorIODebugFlags : BitVec 2 := s.ebreakFlag ++ BitVec.ofBool (cycleStall i s)

/-! ## The clock -/

/-- One rising clock edge. -/
def posedge : State where
  pc := fetchNext i.reset (pcSrc C i s) (s.mtvec.extractLsb' 2 62 ++ 0#2) s.mepc
    (ctl C i s).trapReturn (trapTrigger C i s != 0) (exec C i s).pcBranch
    (!coprocessorStall i s) s.pc
  regs := decodeNext (ctl C i s).regWrite (ctl C i s).branch (instrMemText C s) (writeData3 C i s)
    (exec C i s).pc4 (dec C i s).readRegDataDB (i.weDB) (i.addr.extractLsb' 0 5)
    i.dataOut s.regs
  ram := C.ramClock s.ram (dmemPort C i s)
  mode := CoreStatus.modeNext i.reset (trapTrigger C i s) (ctl C i s).trapReturn s.mode s.mstatus
  mstatus := CoreStatus.mstatusNext i.reset (trapTrigger C i s) (ctl C i s).trapReturn
    (mstatusCSREnable C i s) (csrIn C i s) s.mode s.mstatus
  mcause := ExceptController.mcauseNext i.reset (mie s) false (exceptSignal C i s) interruptSignal
    (breakSrc C i s) s.mcause
  mtvec := ExceptController.mtvecNext i.reset (csrWriteEnable C i s) (csrAddr C s) (csrIn C i s)
    s.mtvec
  mepc := ExceptController.mepcNext i.reset (mie s) (exceptSignal C i s) s.pc s.mepc
  cycles := flopre i.reset (!coprocessorStall i s) (s.cycles + 1) s.cycles
  cycleStallFlag := flopre (!i.stopAt)
    (i.stopAt && i.csrDB && i.addr.getLsbD 12) i.dataOut s.cycleStallFlag
  ebreakFlag := flopre i.reset
    ((ctl C i s).exceptSignal.getLsbD 0 ||
      i.csrDB && i.addr.getLsbD 12 && i.addr.getLsbD 0)
    (if i.csrDB then i.dataOut.extractLsb' 0 1
      else (ctl C i s).exceptSignal.extractLsb' 0 1)
    s.ebreakFlag

/-- The asynchronous resets. The register file and the RAM have none. -/
def settle : State where
  pc := if i.reset then 0 else s.pc
  regs := s.regs
  ram := s.ram
  mode := if i.reset then 0b11#2 else s.mode
  mstatus := if i.reset then mstatusInit else s.mstatus
  mcause := if i.reset then 0 else s.mcause
  mtvec := if i.reset then 0 else s.mtvec
  mepc := if i.reset then 0 else s.mepc
  cycles := if i.reset then 0 else s.cycles
  cycleStallFlag := if i.stopAt then s.cycleStallFlag else 0
  ebreakFlag := if i.reset then 0 else s.ebreakFlag

/-- One clock cycle. -/
def cycle : State := posedge C i (settle i s)

end Core

end PassiFlo
