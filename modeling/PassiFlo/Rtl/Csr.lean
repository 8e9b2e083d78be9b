import PassiFlo.Rtl.Decoder

/-!
# Control and status registers

The CSR read decoder, the privilege unit `core_status`, and the trap unit
`except_controller` with its two cause decoders. The flip-flops are the fields
`mode`, `mstatus`, `mcause`, `mepc` and `mtvec` of the core's state; a unit is
given here by the next value of each flip-flop it owns.
-/

namespace PassiFlo

/-- `flopre_init`: the next value of a register with reset and enable. -/
def flopreInit {n : Nat} (resetVal : BitVec n) (reset enable : Bool) (d q : BitVec n) : BitVec n :=
  if reset then resetVal else if enable then d else q

/-- `flopre`. -/
def flopre {n : Nat} (reset enable : Bool) (d q : BitVec n) : BitVec n :=
  flopreInit 0 reset enable d q

/-! ## csr_dec -/

def misa : BitVec 64 := 0b10#2 ++ 0#36 ++ 0b00000100000000000100000000#26

/-- CSR read decoder, over the six entries of `csrOut`. -/
def csrDec (hartid : BitVec 64) (addr : BitVec 12) (csrOut : Fin 6 → BitVec 64) : BitVec 64 :=
  -- M mode read only
  if addr = 0x301#12 then misa
  else if addr = 0xf11#12 then 0
  else if addr = 0xf12#12 then 0
  else if addr = 0xf13#12 then 0
  else if addr = 0xf14#12 then hartid
  -- M mode read / write
  else if addr = 0x340#12 then csrOut 0
  else if addr = 0x300#12 then csrOut 1
  else if addr = 0x342#12 then csrOut 2
  else if addr = 0x305#12 then csrOut 3
  else if addr = 0x341#12 then csrOut 4
  -- U mode read only
  else if addr = 0xc00#12 then csrOut 5
  else 0

/-! ## core_status -/

/-- `{mstatus[12:11], mstatus[7], mstatus[3]}`: MPP, MPIE and MIE. -/
def privStack (mstatus : BitVec 64) : BitVec 4 :=
  mstatus.extractLsb' 11 2 ++ BitVec.ofBool (mstatus.getLsbD 7) ++ BitVec.ofBool (mstatus.getLsbD 3)

/-- `mstatus` with MPP, MPIE and MIE replaced by the four bits of `t`. -/
def mstatusMerge (mstatus : BitVec 64) (t : BitVec 4) : BitVec 64 :=
  mstatus.extractLsb' 13 51 ++ t.extractLsb' 2 2 ++ mstatus.extractLsb' 8 3 ++ t.extractLsb' 1 1 ++
    mstatus.extractLsb' 4 3 ++ t.extractLsb' 0 1 ++ mstatus.extractLsb' 0 3

/-- The reset value of `mstatus`: UXL is 64-bit, everything else zero. -/
def mstatusInit : BitVec 64 := 0x200000000#64

namespace CoreStatus

/-- `mstatusTrapTrigger`: trap entry over trap return over CSR write. -/
def stackNext (trapTrigger : BitVec 16) (trapReturn mstatusCSREnable : Bool)
    (csrIn : BitVec 64) (mode : BitVec 2) (mstatus : BitVec 64) : BitVec 4 :=
  if trapTrigger ≠ 0 then mode ++ BitVec.ofBool (mstatus.getLsbD 3) ++ 0#1
  else if trapReturn then 0b00#2 ++ 1#1 ++ BitVec.ofBool (mstatus.getLsbD 7)
  else if mstatusCSREnable then privStack csrIn
  else privStack mstatus

/-- Next value of `currentPrivilege`. -/
def modeNext (reset : Bool) (trapTrigger : BitVec 16) (trapReturn : Bool) (mode : BitVec 2)
    (mstatus : BitVec 64) : BitVec 2 :=
  let writeEnable := trapTrigger != 0 || trapReturn
  let modeTrapReturn := if trapReturn then mstatus.extractLsb' 11 2 else mode
  let modeTrapTrigger := if trapTrigger ≠ 0 then 0b11#2 else modeTrapReturn
  flopreInit 0b11#2 reset writeEnable modeTrapTrigger mode

/-- Next value of `mstatus_csr`. -/
def mstatusNext (reset : Bool) (trapTrigger : BitVec 16) (trapReturn mstatusCSREnable : Bool)
    (csrIn : BitVec 64) (mode : BitVec 2) (mstatus : BitVec 64) : BitVec 64 :=
  let writeEnable := trapTrigger != 0 || trapReturn
  flopreInit mstatusInit reset (writeEnable || mstatusCSREnable)
    (mstatusMerge mstatus (stackNext trapTrigger trapReturn mstatusCSREnable csrIn mode mstatus))
    mstatus

end CoreStatus

/-! ## except_controller -/

/-- Cause of a synchronous exception, in priority order. -/
def exceptDecode (signal : BitVec 16) (breakSrc : BitVec 3) : BitVec 6 :=
  -- instr address breakpoint
  if signal.getLsbD 3 && breakSrc.getLsbD 0 then 0x3#6
  -- instr access fault
  else if signal.getLsbD 1 then 0x1#6
  -- illegal instr
  else if signal.getLsbD 2 then 0x2#6
  -- instr address misalign
  else if signal.getLsbD 0 then 0x0#6
  -- U ecall
  else if signal.getLsbD 8 then 0x8#6
  -- S ecall
  else if signal.getLsbD 9 then 0x9#6
  -- M ecall
  else if signal.getLsbD 11 then 0xb#6
  -- ebreak
  else if signal.getLsbD 3 && breakSrc.getLsbD 2 then 0x3#6
  -- memory breakpoint aka watchpoint
  else if signal.getLsbD 3 && breakSrc.getLsbD 1 then 0x3#6
  -- load address misalign
  else if signal.getLsbD 4 then 0x4#6
  -- store address misalign
  else if signal.getLsbD 6 then 0x6#6
  -- load access fault
  else if signal.getLsbD 5 then 0x5#6
  -- store access fault
  else if signal.getLsbD 7 then 0x7#6
  -- either no exception or something went wrong
  else 0b11111#6

/-- Cause of an interrupt. The core grounds `async`, so it is never recorded. -/
def interruptDecode (signal : BitVec 16) : BitVec 6 :=
  if signal.getLsbD 0 then 0x1#6
  else if signal.getLsbD 1 then 0x3#6
  else if signal.getLsbD 2 then 0x5#6
  else if signal.getLsbD 3 then 0x7#6
  else if signal.getLsbD 4 then 0x9#6
  else if signal.getLsbD 5 then 0xb#6
  else 0b11111#6

namespace ExceptController

def mtvecMask : BitVec 64 := 0#40 ++ 0x3fffff#22 ++ 0#2

/-- `{16{MIE}} & exceptSignal`. -/
def trapTrigger (mie : Bool) (exceptSignal : BitVec 16) : BitVec 16 := rep 16 mie &&& exceptSignal

def exceptCSREnable (mie : Bool) (exceptSignal : BitVec 16) : Bool := mie && exceptSignal != 0

def mcauseCode (async : Bool) (exceptSignal interruptSignal : BitVec 16) (breakSrc : BitVec 3) :
    BitVec 64 :=
  BitVec.ofBool async ++ 0#57 ++
    (if async then interruptDecode interruptSignal else exceptDecode exceptSignal breakSrc)

/-- Next value of `mcause_csr`. -/
def mcauseNext (reset mie async : Bool) (exceptSignal interruptSignal : BitVec 16)
    (breakSrc : BitVec 3) (mcause : BitVec 64) : BitVec 64 :=
  flopre reset (exceptCSREnable mie exceptSignal)
    (mcauseCode async exceptSignal interruptSignal breakSrc) mcause

/-- Next value of `mepc_csr`, which no CSR instruction writes. -/
def mepcNext (reset mie : Bool) (exceptSignal : BitVec 16) (pcF mepc : BitVec 64) : BitVec 64 :=
  flopre reset (exceptCSREnable mie exceptSignal) pcF mepc

/-- Next value of `mtvec_csr`. -/
def mtvecNext (reset csrWriteEnable : Bool) (csrAddr : BitVec 12) (csrIn mtvec : BitVec 64) :
    BitVec 64 :=
  flopre reset (csrAddr == 0x305#12 && csrWriteEnable)
    (mtvec &&& ~~~mtvecMask ||| csrIn &&& mtvecMask) mtvec

end ExceptController

end PassiFlo
