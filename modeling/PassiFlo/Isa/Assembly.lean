import PassiFlo.Isa.Semantics
import PassiFlo.Lib.Numeral

/-!
# Assembly lines

The loads of the assembly language, as the assembler reads them: a mnemonic, a register
by its ABI name, and an address of a numeric offset and a base register.
-/

namespace PassiFlo

namespace Isa

open Text

def LoadOp.text : LoadOp → List Char
  | .lb => "lb".toList
  | .lh => "lh".toList
  | .lw => "lw".toList
  | .ld => "ld".toList
  | .lbu => "lbu".toList
  | .lhu => "lhu".toList
  | .lwu => "lwu".toList

def LoadOp.all : List LoadOp := [.lb, .lh, .lw, .ld, .lbu, .lhu, .lwu]

/-- The ABI names of the registers; `fp` is another name of `s0`. -/
inductive Abi
  | zero | ra | sp | gp | tp | fp
  | t (n : Fin 7)
  | s (n : Fin 12)
  | a (n : Fin 8)
  deriving DecidableEq

def Abi.all : List Abi :=
  [zero, ra, sp, gp, tp, fp] ++ (List.finRange 7).map t ++ (List.finRange 12).map s
    ++ (List.finRange 8).map a

def Abi.text : Abi → List Char
  | .zero => "zero".toList
  | .ra => "ra".toList
  | .sp => "sp".toList
  | .gp => "gp".toList
  | .tp => "tp".toList
  | .fp => "fp".toList
  | .t n => 't' :: Nat.toDigits 10 n
  | .s n => 's' :: Nat.toDigits 10 n
  | .a n => 'a' :: Nat.toDigits 10 n

/-- The number of the register. -/
def Abi.number : Abi → BitVec 5
  | .zero => 0
  | .ra => 1
  | .sp => 2
  | .gp => 3
  | .tp => 4
  | .fp => 8
  | .t n => if n.val < 3 then 5 + BitVec.ofNat 5 n else 25 + BitVec.ofNat 5 n
  | .s n => if n.val < 2 then 8 + BitVec.ofNat 5 n else 16 + BitVec.ofNat 5 n
  | .a n => 10 + BitVec.ofNat 5 n

/-! ## Reading -/

/-- The base of a number and its digits. -/
def readBase : List Char → ℕ × List Char
  | '0' :: c :: s =>
      if c = 'x' ∨ c = 'X' then (16, s) else if c = 'b' ∨ c = 'B' then (2, s) else (8, c :: s)
  | s => (10, s)

def readNumber (s : List Char) : Option ℕ :=
  if (readBase s).2 = [] then none else readDigits (readBase s).1 (readBase s).2

/-- A numeric offset. -/
def readOffset : List Char → Option ℤ
  | '-' :: s => (readNumber s).map fun n => -Int.ofNat n
  | '+' :: s => (readNumber s).map Int.ofNat
  | s => (readNumber s).map Int.ofNat

def readRegister (s : List Char) : Option (BitVec 5) :=
  (Abi.all.find? fun r => r.text = s).map Abi.number

/-- A load: where the value goes, and the offset and the base register of its address. -/
structure Load where
  op : LoadOp
  rd : BitVec 5
  offset : ℤ
  base : BitVec 5
  deriving DecidableEq

/-- `offset(base)`. -/
def readAddress (s : List Char) : Option (ℤ × BitVec 5) :=
  match split ['('] s with
  | [offset, base] =>
      if base.getLast? = some ')' then
        (readOffset offset).bind fun v => (readRegister base.dropLast).map fun r => (v, r)
      else none
  | _ => none

/-- The operands, with white space around them. -/
def readOperands (op : LoadOp) (s : List Char) : Option Load :=
  match split [','] s with
  | [rd, address] =>
      (readRegister (strip rd)).bind fun rd =>
        (readAddress (strip address)).map fun (offset, base) => { op, rd, offset, base }
  | _ => none

/-- A line that is a load. -/
def readLoad (line : List Char) : Option Load :=
  (LoadOp.all.find? fun op => op.text = line.takeWhile (!isSpace ·)).bind fun op =>
    readOperands op (line.dropWhile (!isSpace ·))

/-- The first word of the line is the mnemonic of a load. -/
def IsLoadLine (line : List Char) : Prop := ∃ op : LoadOp, (words line).head? = some op.text

/-- `offset(rs)`. -/
def address (offset : List Char) (rs : Abi) : List Char := offset ++ '(' :: (rs.text ++ [')'])

/-- `op rd,offset(rs)`. -/
def loadLine (op : LoadOp) (blanks : List Char) (rd : Abi) (offset : List Char) (rs : Abi) :
    List Char :=
  op.text ++ (blanks ++ (rd.text ++ ',' :: address offset rs))

end Isa

end PassiFlo
