import PassiFlo.Isa.Block

/-!
# `entry.s`

What runs around `main`: the start-up, and where the program stays once `main` has
returned or an exception was raised. What the symbols are is the linker's choice, and so
is the form in which it leaves each `la`.
-/

namespace PassiFlo

namespace Entry

open Isa Isa.Reg

/-! ## After `main` -/

/-- When we return, turn on led, and notify the coprocessor that the program has finished. -/
def finish : List Instr := [li t6 1, sdZero t6 0, .ebreak]

def neverRetDone : List Instr := [j 0]

def neverRetErr : List Instr := [j 0]

/-- The interrupt handler: a breakpoint is the end of the program. -/
def neverRetExcept0 : List Instr :=
  [li t2 3, csrr t0 .mcause, csrr t1 .mepc, branchBy .bne t0 t2 8, j (-24)]

/-- What the handler saves of any other exception. -/
def saves : List Instr :=
  [sdZero t0 8, sdZero t1 16, sdZero a1 24, sdZero a2 32, sdZero a3 40, sdZero a4 48,
    sdZero a5 56, sdZero sp 64, sdZero fp 72, li a0 (-1)]

def neverRetExcept1 : List Instr := saves ++ [.ebreak, j (-68)]

/-- The code from where `main` returns to. -/
def tail : List Instr :=
  finish ++ (neverRetDone ++ (neverRetErr ++ (neverRetExcept0 ++ neverRetExcept1)))

/-! ## Before `main` -/

/-- The forms the linker leaves a `la` at `pc` in: relative to the PC, or to address 0. -/
inductive La (pc : CodeAddr) (d : BitVec 5) (v : BitVec 64) : List Instr → Prop
  | relative {high : BitVec 20} {low : BitVec 12} :
      pc.val + (high ++ 0#12).signExtend 64 + low.signExtend 64 = v →
        La pc d v [.auipc d high, .opImm .addi d d low]
  | absolute {low : BitVec 12} : low.signExtend 64 = v → La pc d v [li d low]

/-- The start-up, with the three `la` as they are linked. -/
structure Linked where
  laGp : List Instr
  laSp : List Instr
  laT5 : List Instr
  /-- `main`, as the offset of the jump. -/
  main : BitVec 21

variable (L : Linked)

/-- The global pointer; reset led status. -/
def start : List Instr := li zero 0 :: (L.laGp ++ [sdZero zero 0])

/-- Setup stack. -/
def stack : List Instr := L.laSp ++ [.opImm .addi fp sp 0]

/-- Enable M mode exceptions. -/
def enable : List Instr := .csr .csrrsi zero 8 Csr.mstatus.addr :: L.laT5

def csrwMtvec : List Instr := [.csr .csrrw zero t5 Csr.mtvec.addr]

/-- Jump to main. -/
def callMain : List Instr := [jal ra L.main]

/-- The program but for `main`. -/
def code : List Instr :=
  start L ++ (stack L ++ (enable L ++ (csrwMtvec ++ (callMain L ++ tail))))

/-! ## The addresses -/

def atStack : CodeAddr := origin.plus (start L).length

def atEnable : CodeAddr := (atStack L).plus (stack L).length

def atMtvec : CodeAddr := (atEnable L).plus (enable L).length

def atCall : CodeAddr := (atMtvec L).plus 1

/-- Where `main` returns to. -/
def returnTo : CodeAddr := (atCall L).plus 1

/-- The symbols of the program. -/
structure Symbols where
  globalPointer : BitVec 64
  stackTop : BitVec 64
  main : CodeAddr

/-- The program is linked for the symbols. -/
structure Links (L : Linked) (sym : Symbols) : Prop where
  laGp : La (origin.plus 1) gp sym.globalPointer L.laGp
  laSp : La (atStack L) sp sym.stackTop L.laSp
  laT5 : La ((atEnable L).plus 1) t5 ((returnTo L).plus 5).val L.laT5
  main : (atCall L).val + L.main.signExtend 64 = sym.main.val
  even : L.main.getLsbD 0 = false

end Entry

end PassiFlo
