import Mathlib

/-!
# The two ALUs and the branch unit

`alu`, `atom_alu` and `branching`. The carry and borrow of the ALU come out of a
65-bit sum or difference, exactly as `{overflow, result} = a - b` computes them.
-/

namespace PassiFlo

/-- The outputs of `alu`. -/
structure AluOut where
  zero : Bool
  overflow : Bool
  sign : Bool
  result : BitVec 64

/-- `{overflow, result}` of `alu`. -/
def aluResult (a b : BitVec 64) (wArith : Bool) (aluControl : BitVec 4) : Bool × BitVec 64 :=
  if aluControl = 0b0000#4 then (false, a &&& b)
  else if aluControl = 0b0001#4 then (false, a ||| b)
  else if aluControl = 0b1001#4 then (false, a ^^^ b)
  else if aluControl = 0b0010#4 then
    let r := a.setWidth 65 + b.setWidth 65
    (r.getLsbD 64, r.setWidth 64)
  else if aluControl = 0b0110#4 then
    let r := a.setWidth 65 - b.setWidth 65
    (r.getLsbD 64, r.setWidth 64)
  -- slt
  else if aluControl = 0b1110#4 then (false, if a.slt b then 1 else 0)
  -- sltu
  else if aluControl = 0b1010#4 then (false, if a.ult b then 1 else 0)
  else if aluControl = 0b0011#4 then
    (false, a >>> (if wArith then (b.extractLsb' 0 5).toNat else (b.extractLsb' 0 6).toNat))
  else if aluControl = 0b1011#4 then
    (false, a.sshiftRight (if wArith then (b.extractLsb' 0 5).toNat else (b.extractLsb' 0 6).toNat))
  else if aluControl = 0b0111#4 then
    (false, a <<< (if wArith then (b.extractLsb' 0 5).toNat else (b.extractLsb' 0 6).toNat))
  else (false, b)

/-- Main ALU. -/
def alu (a b : BitVec 64) (wArith : Bool) (aluControl : BitVec 4) : AluOut :=
  let r := aluResult a b wArith aluControl
  { zero := r.2 == 0
    overflow := r.1
    sign := r.2.getLsbD 63
    result := r.2 }

/-- `(result0, result1)` of the CSR ALU: the value read, and the value to write back. -/
def atomAlu (a b : BitVec 64) (aluControl : BitVec 4) : BitVec 64 × BitVec 64 :=
  -- csrrw
  if aluControl = 0b0000#4 then (b, a)
  -- csrrs
  else if aluControl = 0b0001#4 then (b, a ||| b)
  -- csrrc
  else if aluControl = 0b0011#4 then (b, ~~~a &&& b)
  -- nop, just passthrough
  else (a, b)

/-- Branch decision from the flags of the subtraction. -/
def branching (branch : BitVec 3) (zero sign overflow : Bool) : Bool :=
  if branch = 0b001#3 then zero
  else if branch = 0b011#3 then !zero
  else if branch = 0b101#3 then sign && !zero
  else if branch = 0b100#3 then !sign || zero
  else if branch = 0b110#3 then overflow && !zero
  else if branch = 0b010#3 then !overflow || zero
  else if branch = 0b111#3 then true
  else false

end PassiFlo
