import PassiFlo.Rtl.Core
import PassiFlo.Lib.Clocked

/-!
# Runs of the core

A run is a list of input cycles. `Reachable` collects every state the core can be in
after power-up: the flip-flops come up with anything in them, the register file with
the zeros of its initialiser, the RAM with whatever image was loaded, and the first
thing that happens is a reset. Afterwards the host may do what it likes, including
further resets; a reset pulse between two clock edges counts.
-/

namespace PassiFlo

namespace Core

/-- The state after the given cycles. -/
abbrev run (C : Chip) : List Inputs → State → State := Clocked.run (cycle C)

/-- `P` holds of the inputs and the state at every cycle of the run. -/
abbrev Along (C : Chip) : (Inputs → State → Prop) → List Inputs → State → Prop :=
  Clocked.Along (cycle C)

/-- Some power-up state. -/
def PowerUp (s : State) : Prop := s.regs = fun _ => 0

/-- Every state the core can be in once it has been reset. -/
inductive Reachable (C : Chip) : State → Prop
  | powerUp {s : State} {i : Inputs} : PowerUp s → i.reset = true → Reachable C (settle i s)
  | settle {s : State} (i : Inputs) : Reachable C s → Reachable C (settle i s)
  | cycle {s : State} (i : Inputs) : Reachable C s → Reachable C (cycle C i s)

theorem Reachable.run {C : Chip} {s : State} (h : Reachable C s) (is : List Inputs) :
    Reachable C (run C is s) := by
  induction is generalizing s with
  | nil => exact h
  | cons i is ih => exact ih (h.cycle i)

end Core

/-- All coprocessor controls at zero. -/
def Inputs.idle : Inputs := { reset := false, control := 0, addr := 0, dataOut := 0 }

/-- Reset, with all coprocessor controls at zero. -/
def Inputs.resetOnly : Inputs := { Inputs.idle with reset := true }

/-- A chip that runs the given program, with the RAM block of `Altsyncram`. -/
def Chip.ofProgram (program : List (BitVec 32)) : Chip where
  rom a := program.getD a.toNat 0
  undriven := 0
  ramClock := Altsyncram.clock
  ramQ := Altsyncram.q

/-- The state at reset release, for the given memory image and RAM output. -/
def State.released (words : BitVec 12 → BitVec 64) (latch : BitVec 64) : State where
  pc := 0
  regs _ := 0
  ram := { words := words, latch := latch }
  mode := 0b11#2
  mstatus := mstatusInit
  mcause := 0
  mtvec := 0
  mepc := 0
  cycles := 0
  cycleStallFlag := 0
  ebreakFlag := 0

theorem Core.reachable_released (C : Chip) (words : BitVec 12 → BitVec 64) (latch : BitVec 64) :
    Reachable C (State.released words latch) :=
  Reachable.powerUp (s := State.released words latch) (i := Inputs.resetOnly) rfl rfl

end PassiFlo
