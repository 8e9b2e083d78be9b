import Mathlib

/-!
# The array multiplier

`add1bit`, `mulCell` and the grid of `mul`, for any width parameter `N`. Row 1 adds the
first two partial products, row `i` from 2 on adds partial product `i` to what the row
above passes down. The special wiring of the first row, the first column and the last
column is the source's.
-/

namespace PassiFlo

/-- `y` and `cout` of the full adder. -/
def add1bit (a b cin : Bool) : Bool × Bool :=
  let xorab := a ^^ b
  (xorab ^^ cin, (a && b) ^^ (xorab && cin))

/-- `y` and `cout` of a cell. -/
def mulCell (a b c cin : Bool) : Bool × Bool := add1bit (a && b) c cin

namespace Mul

variable {N : ℕ} (a b : BitVec (N / 2))

/-- The cells of the block `i_1`, by column. -/
def row1 : ℕ → Bool × Bool
  | 0 => mulCell (a.getLsbD 0) (b.getLsbD 1) (a.getLsbD 0 && b.getLsbD 0) false
  | j + 1 =>
      let carry := (row1 j).2
      if j + 1 = N / 2 - 1 then mulCell (a.getLsbD (j + 1)) (b.getLsbD 1) carry false
      else mulCell (a.getLsbD (j + 1)) (b.getLsbD 1) (a.getLsbD (j + 2) && b.getLsbD 0) carry

/-- The cells of the block `_i[i]`, by column, given those of the row above. -/
def rowBelow (above : ℕ → Bool × Bool) (i : ℕ) : ℕ → Bool × Bool
  | 0 => mulCell (a.getLsbD 0) (b.getLsbD i) (above 1).1 false
  | j + 1 =>
      let carry := (rowBelow above i j).2
      if j + 1 = N / 2 - 1 then mulCell (a.getLsbD (j + 1)) (b.getLsbD i) (above (j + 1)).2 carry
      else mulCell (a.getLsbD (j + 1)) (b.getLsbD i) (above (j + 2)).1 carry

/-- The cells of every row. There is no row 0. -/
def cells : ℕ → ℕ → Bool × Bool
  | 0 => fun _ => (false, false)
  | 1 => row1 a b
  | i + 2 => rowBelow a b (cells (i + 1)) (i + 2)

/-- `rowOut[i][j]`; in column 0 this is `y[i]`. -/
def rowOut (i j : ℕ) : Bool := (cells a b i j).1

/-- `carry[i][j]`. -/
def carry (i j : ℕ) : Bool := (cells a b i j).2

/-- `y[k]`. -/
def y (k : ℕ) : Bool :=
  if k = 0 then a.getLsbD 0 && b.getLsbD 0
  else if k < N / 2 then rowOut a b k 0
  else if k < N - 1 then rowOut a b (N / 2 - 1) (k - N / 2 + 1)
  else carry a b (N / 2 - 1) (N / 2 - 1)

end Mul

/-- The output of `mul`. -/
def mul {N : ℕ} (a b : BitVec (N / 2)) : BitVec N := BitVec.ofFnLE fun k : Fin N => Mul.y a b k

end PassiFlo
