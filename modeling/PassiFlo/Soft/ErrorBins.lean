import Mathlib

/-!
# Error bins

The loop of `generate_graph.py` that sorts the failed runs of one register by the
function their fault hit: a run fails when its dump differs from the expected one or its
exit code is not 0, and its bin is the range its injected PC lies in.
-/

namespace PassiFlo

namespace Soft

/-- `bin_ranges`, both ends included. -/
def binRanges : List (ℕ × ℕ) := [(0x88, 0x270), (0x274, 0x354), (0x358, 0x37c), (0x380, 0x3a0)]

/-- The arguments `-d` and `-f`; a filter is only valid if `-d` is a region. -/
inductive StackArgs
  /-- One address. -/
  | address
  /-- A region, with the value to filter out. -/
  | region (stackFilter : Option ℕ)

/-- `memdump[stack_region]`: one word or a list of them. -/
def StackArgs.Dump : StackArgs → Type
  | .address => ℕ
  | .region _ => List ℕ

instance : (args : StackArgs) → DecidableEq args.Dump
  | .address => inferInstanceAs (DecidableEq ℕ)
  | .region _ => inferInstanceAs (DecidableEq (List ℕ))

/-- The words other than the filtered one. -/
def StackArgs.filter : (args : StackArgs) → args.Dump → args.Dump
  | .address, memdump => memdump
  | .region none, memdump => memdump
  | .region (some f), memdump => List.filter (fun x => x != f) memdump

/-- The numbers `parse_run` reads off a report, up to the exit code at least. -/
structure Summary where
  values : List ℕ
  long : 4 < values.length

/-- `summary[0]`. -/
def Summary.pcInject (summary : Summary) : ℕ :=
  summary.values.get ⟨0, Nat.lt_trans (by decide) summary.long⟩

/-- `summary[4]`. -/
def Summary.exitCode (summary : Summary) : ℕ := summary.values.get ⟨4, summary.long⟩

/-- `x[0] <= pc_inject <= x[1]`. -/
def inRange (x : ℕ × ℕ) (pcInject : ℕ) : Bool := x.1 ≤ pcInject && pcInject ≤ x.2

/-- `np.argmax` of booleans: where the largest value comes first. -/
def argmax (l : List Bool) : ℕ := l.idxOf (l.any id)

/-- `bins` and `run_results`. The counts of `np.zeros` are whole numbers. -/
structure Tally where
  bins : List ℕ
  runResults : List Bool

section Loop

variable (args : StackArgs) (expectedResults : args.Dump)

/-- `success` of a run; `expected_results` is filtered before the loop. -/
def success (run : Summary × args.Dump) : Bool :=
  expectedResults == args.filter run.2 && run.1.exitCode == 0

/-- The body of the loop. -/
def Tally.add (t : Tally) (run : Summary × args.Dump) : Tally :=
  let binIndex := argmax (binRanges.map fun x => inRange x run.1.pcInject)
  { bins := if success args expectedResults run then t.bins
      else t.bins.modify binIndex (· + 1)
    runResults := t.runResults ++ [success args expectedResults run] }

/-- The loop over the runs of one register. -/
def classify (summaries : List Summary) (memdumps : List args.Dump) : Tally :=
  (summaries.zip memdumps).foldl (Tally.add args expectedResults)
    { bins := List.replicate binRanges.length 0, runResults := [] }

end Loop

end Soft

end PassiFlo
