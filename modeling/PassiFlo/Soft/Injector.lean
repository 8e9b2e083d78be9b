import PassiFlo.Lib.Ports
import PassiFlo.Rtl.Board
import PassiFlo.Soft.RunLog

/-!
# The injector

`main` of `hello_world_small.c`, on the pins of the board. It runs on the Nios, and the
core sees of it the output registers of five PIO cores and nothing else. The clock goes
on between the accesses, for as many edges as `wait` says.
-/

namespace PassiFlo

namespace Injector

open Loop Loop.Outcome Ports

/-! ## The PIO cores -/

/-- The PIO cores, as `system.h` names them. -/
inductive Base
  | ioControl | ioAddr | ioDataHigh | ioDataLow | ioRiscvFlags

/-- Their output registers. -/
structure Pio where
  ioControl : BitVec 6
  ioAddr : BitVec 15
  ioDataHigh : BitVec 32
  ioDataLow : BitVec 32

/-- The registers after the FPGA is programmed. -/
def Pio.reset : Pio := { ioControl := 1, ioAddr := 0, ioDataHigh := 0, ioDataLow := 0 }

/-- The pins of the board, with no key pressed. -/
def Pio.pins (p : Pio) : BoardIn where
  key := 0b11
  nios2IOControl := p.ioControl
  nios2IOAddr := p.ioAddr
  nios2IODataOutH := p.ioDataHigh
  nios2IODataOutL := p.ioDataLow

/-- `data_out <= writedata`; the flags have no output register. -/
def Pio.write (base : Base) (data : BitVec 32) (p : Pio) : Pio :=
  match base with
  | .ioControl => { p with ioControl := data.setWidth 6 }
  | .ioAddr => { p with ioAddr := data.setWidth 15 }
  | .ioDataHigh => { p with ioDataHigh := data }
  | .ioDataLow => { p with ioDataLow := data }
  | .ioRiscvFlags => p

variable (C : Chip) (wait : ℕ → ℕ)

/-- `readdata`: the input port, or the output register where there is none. -/
def readdata (base : Base) (p : Pio) (t : Board) : BitVec 32 :=
  let i := p.pins.core
  let s := Core.settle i t.core
  match base with
  | .ioControl => p.ioControl.setWidth 32
  | .ioAddr => p.ioAddr.setWidth 32
  | .ioDataHigh => (Core.coprocessorIODataIn C i s).extractLsb' 32 32
  | .ioDataLow => (Core.coprocessorIODataIn C i s).extractLsb' 0 32
  | .ioRiscvFlags => (Core.coprocessorIODebugFlags i s).setWidth 32

/-- The board and the registers of the PIO cores. -/
abbrev Host := Ports.Host Board Pio

/-- One clock cycle of the board. -/
def clock (p : Pio) (t : Board) : Board := Board.cycle C p.pins t

/-- `IOWR_ALTERA_AVALON_PIO_DATA`. -/
def iowr (base : Base) (data : BitVec 32) (h : Host) : Host :=
  write (clock C) wait (Pio.write base data) h

/-- `IORD_ALTERA_AVALON_PIO_DATA`. -/
def iord (base : Base) (h : Host) : BitVec 32 × Host :=
  read (clock C) wait (readdata C base) h

/-- The two data ports, as a call of `alt_printf` reads them. -/
def iordData (h : Host) : BitVec 64 × Host :=
  let high := iord C wait .ioDataHigh h
  let low := iord C wait .ioDataLow high.2
  (high.1 ++ low.1, low.2)

/-! ## `main` -/

/-- The macros of the injection. -/
structure Macros where
  injectDelay : BitVec 32
  injectAddress : BitVec 32
  injectDataLow : BitVec 32
  injectDataHigh : BitVec 32
  programMaxDuration : BitVec 32

variable (m : Macros)

/-- The delay, up to and with the start of the core. -/
def setDelay (h : Host) : Host :=
  let h := iowr C wait .ioControl 0x1 h
  let h := iowr C wait .ioAddr 0x1000 h
  let h := iowr C wait .ioDataLow m.injectDelay h
  let h := iowr C wait .ioControl 0x31 h
  let h := iowr C wait .ioControl 0x21 h
  let h := iowr C wait .ioDataHigh 0x0 h
  let h := iowr C wait .ioDataLow 0x0 h
  let h := iowr C wait .ioAddr 0x1000 h
  iowr C wait .ioControl 0x20 h

/-- Wait until we stall. -/
def awaitStall (fuel : ℕ) (h : Host) : Outcome (BitVec 32 × Host) :=
  poll (clock C) wait (readdata C .ioRiscvFlags) (fun flags => flags &&& 0x1 == 0x1) fuel h

/-- Bit select: set and clear to avoid flipping twice. -/
def selectBits (h : Host) : Host :=
  let h := iowr C wait .ioDataLow m.injectDataLow h
  let h := iowr C wait .ioDataLow 0x0 h
  let h := iowr C wait .ioDataHigh m.injectDataHigh h
  iowr C wait .ioDataHigh 0x0 h

/-- What is read around the injection. -/
structure Injected where
  injectedPc : BitVec 64
  currentVal : BitVec 64
  newVal : BitVec 64
  host : Host

/-- The injection: current PC, register select and bit select. -/
def inject (h : Host) : Injected :=
  -- disable the delay counter and enable writes on registers
  let h := iowr C wait .ioControl 0x2 h
  let h := iowr C wait .ioAddr 0x20 h
  let injectedPc := iordData C wait h
  let h := iowr C wait .ioAddr m.injectAddress injectedPc.2
  let currentVal := iordData C wait h
  let h := selectBits C wait m currentVal.2
  let newVal := iordData C wait h
  { injectedPc := injectedPc.1
    currentVal := currentVal.1
    newVal := newVal.1
    host := iowr C wait .ioControl 0x0 newVal.2 }

/-- The variables of the loop that waits for the program to finish. -/
structure Watch where
  flags : BitVec 32
  watchdog : BitVec 32
  host : Host

/-- Wait for the program to finish. -/
def awaitFinish (fuel : ℕ) (h : Host) : Outcome Watch :=
  let flags := iord C wait .ioRiscvFlags h
  whileLoop (fun w => w.flags &&& 0x2 != 0x2 && decide (w.watchdog ≤ m.programMaxDuration))
    (fun w =>
      let flags := iord C wait .ioRiscvFlags w.host
      done { flags := flags.1, watchdog := w.watchdog + 1, host := flags.2 })
    fuel { flags := flags.1, watchdog := 0, host := flags.2 }

/-- A round of the memory dump. -/
def dumpWord (i : BitVec 32) (h : Host) : BitVec 64 × Host :=
  let h := iowr C wait .ioAddr i h
  let h := iowr C wait .ioAddr i h
  iordData C wait h

/-- The rounds before round `k`. -/
def dumpWords : ℕ → Host → Host
  | 0, h => h
  | k + 1, h => (dumpWord C wait (BitVec.ofNat 32 (8 * k)) (dumpWords k h)).2

/-- The results. -/
def results (injected : Injected) (finished : Watch) : Soft.Run :=
  -- write a register with data 0, which stalls the core
  let h := iowr C wait .ioControl 0x2 finished.host
  let h := iowr C wait .ioAddr 0x20 h
  let pc := iordData C wait h
  let h := iowr C wait .ioAddr 0xa pc.2
  -- nothing is read of a program that did not finish
  let result := if finished.watchdog > m.programMaxDuration then (0, h) else iordData C wait h
  let h := iowr C wait .ioControl 0x8 result.2
  { injectedPc := injected.injectedPc
    currentVal := injected.currentVal
    newVal := injected.newVal
    pc := pc.1
    result := result.1
    watchdog := finished.watchdog
    programMaxDuration := m.programMaxDuration
    memory := fun k =>
      (dumpWord C wait (BitVec.ofNat 32 (8 * k.val)) (dumpWords C wait k.val h)).1 }

/-- What `main` reads in order to report it. -/
def main (fuel : ℕ) (h : Host) : Outcome Soft.Run := do
  let stalled ← awaitStall C wait fuel (setDelay C wait m h)
  let injected := inject C wait m stalled.2
  let finished ← awaitFinish C wait m fuel injected.host
  done (results C wait m injected finished)

end Injector

end PassiFlo
