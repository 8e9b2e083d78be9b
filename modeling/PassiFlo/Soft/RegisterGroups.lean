import Mathlib

/-!
# Runs by register

The part of `generate_graph.py` that splits the runs of a file by the register they were
injected in. `register_indices` looks for the first run of every register, from the last
one found on; two such indices in a row make a slice, and the loop over `reg` plots slice
`reg` under the label `reg + 1`.

What is taken of a memory dump is `memdump[stack_region]`, of any type.
-/

namespace PassiFlo

namespace Soft

variable {α δ : Type}

/-- `line[-3]` of a summary. -/
def registerField (summary : List ℤ) : Option ℤ :=
  if 3 ≤ summary.length then summary[summary.length - 3]? else none

/-- The inner loop of `register_indices`: where the register is first found, if it is. -/
def firstLine (i : ℕ) : List (List ℤ × ℕ) → Option (Option ℕ)
  | [] => some none
  | (line, j) :: rest => do
      let register ← registerField line
      if i = register then some (some j) else firstLine i rest

/-- The body of the outer loop, on `indices` and `start`. -/
def indexStep (dataEnum : List (List ℤ × ℕ)) (v : List ℕ × ℕ) (i : ℕ) : Option (List ℕ × ℕ) := do
  let found ← firstLine i (dataEnum.drop v.2)
  match found with
  | some j => some (v.1 ++ [j], j)
  | none => some v

/-- `register_indices`. -/
def registerIndices (parsedData : List (List ℤ)) : Option (List ℕ) :=
  ((List.range 32).foldlM (indexStep parsedData.zipIdx) ([], 0)).map Prod.fst

/-- `l[sl]`. -/
def slice (l : List α) (sl : ℕ × ℕ) : List α := (l.take sl.2).drop sl.1

/-- `index_slices`: from every index but the first to the next. -/
def indexSlices (indices : List ℕ) : Option (List (ℕ × ℕ)) :=
  (List.range' 1 (indices.length - 2)).mapM fun i : ℕ => do
    let first ← indices[i]?
    let last ← indices[i + 1]?
    some (first, last)

/-- `memdump_by_register` and `summary_by_register`: the slices, and what follows the last index. -/
def byRegister (indices : List ℕ) (l : List α) : Option (List (List α)) := do
  let indexSlices ← indexSlices indices
  let last ← indices.getLast?
  some (indexSlices.map (slice l) ++ [l.drop last])

/-- The round `reg` of the loop that plots: its label, and the runs it is made from. -/
def plotted (runSummary : List (List ℤ)) (runMemdump : List δ) (reg : ℕ) :
    Option (ℕ × List (List ℤ) × List δ) := do
  let indices ← registerIndices runSummary
  let memdumpByRegister ← byRegister indices runMemdump
  let summaryByRegister ← byRegister indices runSummary
  let registerSummaries ← summaryByRegister[reg]?
  let registerMemdumps ← memdumpByRegister[reg]?
  some (reg + 1, registerSummaries, registerMemdumps)

end Soft

end PassiFlo
