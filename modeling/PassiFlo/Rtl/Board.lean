import PassiFlo.Rtl.Run

/-!
# The board

`DE0_NANO`: the core, its coprocessor port on the pins of the Nios II system, and the
eight LEDs, which show a register of their own that is loaded by the stores of the
program to address 0.
-/

namespace PassiFlo

/-- The inputs of the core's side of `DE0_NANO` during one clock cycle. -/
structure BoardIn where
  key : BitVec 2
  nios2IOControl : BitVec 6
  nios2IOAddr : BitVec 15
  nios2IODataOutH : BitVec 32
  nios2IODataOutL : BitVec 32

/-- The ports of `core0`. -/
def BoardIn.core (b : BoardIn) : Inputs where
  reset := b.nios2IOControl.getLsbD 0 || !b.key.getLsbD 1
  control := b.nios2IOControl.extractLsb' 1 5
  addr := b.nios2IOAddr
  dataOut := b.nios2IODataOutH ++ b.nios2IODataOutL

/-- The core, and the `led` register. -/
structure Board where
  core : State
  led : BitVec 64

namespace Board

/-- `LED`: the first byte. -/
def LED (t : Board) : BitVec 8 := t.led.extractLsb' 0 8

/-- `led_enable`. -/
def ledEnable (C : Chip) (i : Inputs) (s : State) : Bool :=
  Core.dmWriteEnable C i s && Core.dmAddr C i s == 0

/-- One clock cycle. -/
def cycle (C : Chip) (b : BoardIn) (t : Board) : Board :=
  let s := Core.settle b.core t.core
  { core := Core.cycle C b.core t.core
    led := if ledEnable C b.core s then Core.dmWriteData C b.core s else t.led }

/-- The board after the given cycles. -/
abbrev run (C : Chip) : List BoardIn → Board → Board := Clocked.run (cycle C)

end Board

end PassiFlo
