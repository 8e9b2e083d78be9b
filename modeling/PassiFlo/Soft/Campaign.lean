import PassiFlo.Soft.Injector

/-!
# The campaign

`fault-injection.py`: a clean run, and then a hundred runs for every register, each with a
bit and a delay of its own. The FPGA is programmed anew for every run. What a run cannot
know before is a `Trial`: the random numbers, the time the host takes between its
accesses, and what is in the flip-flops that programming does not set.
-/

namespace PassiFlo

namespace Soft

open Text Loop Loop.Outcome

/-- `random.randint(a, b)`; nothing where it raises an exception. -/
def randint (a b source : ℕ) : Option ℕ :=
  if a ≤ b then some (a + source % (b - a + 1)) else none

/-- What a run meets, on a chip whose data memory is programmed with `image`. -/
structure Trial (image : BitVec 12 → BitVec 64) where
  bitSource : ℕ
  delaySource : ℕ
  wait : ℕ → ℕ
  machine : Board
  powerUp : Core.PowerUp machine.core
  loaded : machine.core.ram.words = image

variable {image : BitVec 12 → BitVec 64} (C : Chip) (fuel : ℕ)

/-- The board after `program_fpga`. -/
def Trial.host (x : Trial image) : Injector.Host :=
  { machine := x.machine, pins := Injector.Pio.reset, accesses := 0 }

/--
`generate_fault_injector`, and what the compiler makes of its macros. An access takes 32
bits of a number; a bound that `watchdog` cannot exceed is as good as the largest one.
-/
def generateFaultInjector (register dataInject delay duration : ℕ) : Injector.Macros :=
  let dataLow := dataInject &&& 0xffffffff
  let dataHigh := dataInject >>> 32
  { injectDelay := BitVec.ofNat 32 delay
    injectAddress := BitVec.ofNat 32 register
    injectDataLow := BitVec.ofNat 32 dataLow
    injectDataHigh := BitVec.ofNat 32 dataHigh
    programMaxDuration := BitVec.ofNat 32 (min duration 0xffffffff) }

/-- `int(line.split(",")[5].split(":")[1].split("||")[0], 16)`. -/
def durationOf (line : List Char) : Option ℤ := do
  let field ← (split [','] line)[5]?
  let value ← (split [':'] field)[1]?
  let digits ← (split "||".toList value)[0]?
  int 16 digits

/-- `run_test`: the duration, and what is written to the file. -/
def runTest (register : ℕ) (maxDuration : Option ℕ) (x : Trial image) :
    Outcome (ℕ × List Char) := do
  let maxDelay := maxDuration.getD 12
  let maxDuration := maxDuration.getD 0xffffffff
  let flippedBit ← randint 0 63 x.bitSource
  let dataFlip := 1 <<< flippedBit
  let delay ← randint 12 maxDelay x.delaySource
  let run ← Injector.main C x.wait (generateFaultInjector register dataFlip delay maxDuration) fuel
    x.host
  let line ← run.report
  let duration ← durationOf line
  let text ← fileWriteLine line { reg := register, flippedBit := flippedBit, delay := delay }
  -- a duration has no sign
  done (duration.toNat, text)

/-- The runs of some registers, one after the other: what is written to the file. -/
def runTests (maxDuration : ℕ) : List (ℕ × Trial image) → Outcome (List Char)
  | [] => done []
  | (register, x) :: rest => do
      let first ← runTest C fuel register (some maxDuration) x
      let others ← runTests maxDuration rest
      done (first.2 ++ others)

def runCount : ℕ := 100

/-- `registers = range(1, 32)`, with the runs of each. -/
def rounds : List (ℕ × ℕ) :=
  (List.range' 1 31).flatMap fun register => (List.range runCount).map (register, ·)

/-- The script: what is in `data.dump` when it is done. -/
def campaign (clean : Trial image) (trial : ℕ → ℕ → Trial image) : Outcome (List Char) := do
  -- a clean run without faults
  let first ← runTest C fuel 0 none clean
  -- extend duration in case an operation takes longer
  let others ← runTests C fuel (first.1 * 2) (rounds.map fun (register, i) =>
    (register, trial register i))
  done (first.2 ++ others)

end Soft

end PassiFlo
