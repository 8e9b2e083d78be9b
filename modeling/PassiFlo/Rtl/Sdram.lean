import Mathlib
import PassiFlo.Lib.Clocked

/-!
# The SDRAM controller

`memControl`, without its tri-stated data path: the state machine that brings the
chip up and then opens rows on request, its timers, and the pins it drives. The
combinational block also assigns `stat_modeRegSet`, which it reads; that makes it a
latch, so the state keeps the value last assigned.
-/

namespace PassiFlo

/-! ## Timing -/

/-- `init_time_ns`; the value for the testbench. -/
def initTimeNs : Nat := 16

def clkPeriodNs : Nat := 8

def tInit : Nat := initTimeNs / clkPeriodNs + 1

def tRP : Nat := 2

def tRC : Nat := 8

def tMRD : Nat := 2

def tRCD : Nat := 3

def tRRD : Nat := 2

/-- `modeRegsiter`: CAS latency 2, full page bursts. -/
def modeRegister : BitVec 16 := 0b00000_0_00_010_0_111#16

/-- `dramCommand`. -/
inductive DramCommand
  | desl | nop | bst | read | write | act | pre | ref | mrs
  deriving DecidableEq

/-- `state`. -/
inductive MemControlState
  | init | idle | activating | active | reading | writing | prechargeAll | regset | autoref
  | autorefInit
  deriving DecidableEq

/-- The flip-flops of `memControl`, and the latch. -/
@[ext]
structure MemControl where
  currState : MemControlState
  timerInit : BitVec 16
  timerTRC : BitVec 4
  timerTRP : BitVec 2
  timerTMRD : BitVec 2
  timerTRRD : BitVec 2
  timerTRCD : BitVec 2
  counterRefreshInit : BitVec 5
  /-- The value `stat_modeRegSet` was last assigned. -/
  statModeRegSet : Bool
  deriving DecidableEq

/-- The inputs of `memControl` during one clock cycle. -/
structure MemControlIn where
  op : BitVec 2
  dataAddr : BitVec 18
  dataWrite : BitVec 64

/-- What the combinational block assigns. -/
structure MemControlOut where
  command : DramCommand
  dramAddr : BitVec 13
  bank : BitVec 2
  dataMask : BitVec 2
  enableTRC : Bool
  enableTRP : Bool
  enableRefreshInit : Bool
  enableTMRD : Bool
  enableTRRD : Bool
  enableTRCD : Bool
  statModeRegSet : Bool
  statRowActive : Bool
  nextState : MemControlState

/-- No command, no timer running, no status. -/
def nopOut (dramAddr : BitVec 13) (nextState : MemControlState) : MemControlOut where
  command := .nop
  dramAddr := dramAddr
  bank := 0b00#2
  dataMask := 0b11#2
  enableTRC := false
  enableTRP := false
  enableRefreshInit := false
  enableTMRD := false
  enableTRRD := false
  enableTRCD := false
  statModeRegSet := false
  statRowActive := false
  nextState := nextState

/-- `A10`, which makes a precharge one of all banks. -/
def addrA10 : BitVec 13 := 0b00_1_0000000000#13

/-- The combinational block. -/
def memControlOut (s : MemControl) (op : BitVec 2) : MemControlOut :=
  match s.currState with
  | .init =>
      if s.timerInit = 0 then
        { nopOut 0 .prechargeAll with command := .pre, enableTRP := true }
      else nopOut 0 .init
  | .prechargeAll =>
      if s.timerTRP = 0 then nopOut 0 .idle
      else { nopOut addrA10 .prechargeAll with enableTRP := true }
  | .idle =>
      if s.counterRefreshInit ≠ 0 then
        { nopOut addrA10 .autorefInit with
          command := .ref, enableTRC := true, statModeRegSet := true }
      -- regset
      else if s.statModeRegSet then
        { nopOut (modeRegister.extractLsb' 0 13) .regset with
          command := .mrs, bank := modeRegister.extractLsb' 14 2, enableTMRD := true
          statModeRegSet := true }
      -- begin read/write
      else if op ≠ 0 then
        { nopOut addrA10 .active with command := .act, dataMask := 0b00#2 }
      else nopOut addrA10 .idle
  | .autorefInit =>
      if s.timerTRC = 0 then
        { nopOut 0 .idle with enableRefreshInit := true, statModeRegSet := true }
      else { nopOut 0 .autorefInit with enableTRC := true, statModeRegSet := true }
  | .regset =>
      if s.timerTMRD = 0 then
        { nopOut (modeRegister.extractLsb' 0 13) .idle with bank := modeRegister.extractLsb' 14 2 }
      else
        { nopOut (modeRegister.extractLsb' 0 13) .regset with
          bank := modeRegister.extractLsb' 14 2, enableTMRD := true }
  | _ => { nopOut 0 .idle with command := .desl }

/-- A timer counts down while it is enabled and is reloaded otherwise. -/
def timerNext {n : Nat} (enable : Bool) (reload : Nat) (timer : BitVec n) : BitVec n :=
  if enable then timer - 1 else BitVec.ofNat n reload

namespace MemControl

/-- The state at reset release. -/
def released : MemControl where
  currState := .init
  timerInit := BitVec.ofNat 16 tInit
  timerTRC := BitVec.ofNat 4 tRC
  timerTRP := BitVec.ofNat 2 tRP
  timerTMRD := BitVec.ofNat 2 tMRD
  timerTRRD := BitVec.ofNat 2 tRRD
  timerTRCD := BitVec.ofNat 2 tRCD
  counterRefreshInit := 8
  statModeRegSet := false

/-- The pins during a cycle. -/
def out (i : MemControlIn) (s : MemControl) : MemControlOut := memControlOut s i.op

/-- One clock edge without reset. -/
def next (i : MemControlIn) (s : MemControl) : MemControl :=
  let o := out i s
  { currState := o.nextState
    timerInit := if s.timerInit ≠ 0 then s.timerInit - 1 else 0
    timerTRC := timerNext o.enableTRC tRC s.timerTRC
    timerTRP := timerNext o.enableTRP tRP s.timerTRP
    timerTMRD := timerNext o.enableTMRD tMRD s.timerTMRD
    timerTRRD := timerNext o.enableTRRD tRRD s.timerTRRD
    timerTRCD := timerNext o.enableTRCD tRCD s.timerTRCD
    counterRefreshInit :=
      if o.enableRefreshInit then s.counterRefreshInit - 1 else s.counterRefreshInit
    statModeRegSet := o.statModeRegSet }

/-- The pins of every cycle after reset, in order. -/
def outputs (is : List MemControlIn) : List MemControlOut := Clocked.trace next out is released

end MemControl

end PassiFlo
