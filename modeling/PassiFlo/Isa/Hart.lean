import PassiFlo.Isa.Semantics
import PassiFlo.Isa.Decode
import PassiFlo.Lib.Lanes

/-!
# The hart

The machine the core is meant to be: a hart of RV64I_Zicsr with the modes U and M, as
the instruction set describes it. What must hold of a state at all is part of its type:
`x0` is zero, instructions are at multiples of four, a mode is one of the two there are,
and `mtvec` has the bits the core implements.

Four things are the platform's choice. Data memory is 32768 bytes and repeats above
them, an access is misaligned when it leaves an 8-byte word, exceptions are enabled by
MIE: with MIE clear, an instruction that raises one is passed over; and the mode guards
nothing: CSR accesses and MRET are not checked for privilege.
-/

namespace PassiFlo

namespace Isa

open Lanes

/-! ## Well-formed parts -/

/-- The modes of the hart. -/
inductive Privilege | user | machine
  deriving DecidableEq

namespace Privilege

def bits : Privilege → BitVec 2
  | user => 0b00#2
  | machine => 0b11#2

/-- The supported modes; S and the reserved one are not. -/
def ofBits (b : BitVec 2) : Option Privilege :=
  if b = 0b00#2 then some user else if b = 0b11#2 then some machine else none

theorem ofBits_bits (p : Privilege) : ofBits p.bits = some p := by
  cases p <;> rfl

theorem bits_inj {p q : Privilege} : p.bits = q.bits ↔ p = q := by
  cases p <;> cases q <;> decide

end Privilege

/-- The register file. -/
@[ext]
structure Regs where
  val : BitVec 5 → BitVec 64
  zero : val 0 = 0

/-- A register write. -/
def Regs.write (rd : BitVec 5) (v : BitVec 64) (regs : Regs) : Regs where
  val := writeReg rd v regs.val
  zero := by
    unfold writeReg
    split_ifs with h
    · exact regs.zero
    · rw [Function.update_of_ne (Ne.symm h)]
      exact regs.zero

/-- An address an instruction can have. -/
@[ext]
structure CodeAddr where
  val : BitVec 64
  aligned : val.extractLsb' 0 2 = 0

namespace CodeAddr

theorem add_aligned {x y : BitVec 64} (hx : x.extractLsb' 0 2 = 0) :
    (x + y).extractLsb' 0 2 = y.extractLsb' 0 2 := by
  have h : (x + y).extractLsb' 0 2 = x.extractLsb' 0 2 + y.extractLsb' 0 2 :=
    BitVec.extractLsb'_add (by decide)
  rw [h, hx]
  exact BitVec.zero_add _

/-- The next instruction. -/
def next (a : CodeAddr) : CodeAddr where
  val := a.val + 4
  aligned := (add_aligned a.aligned).trans (by decide)

/-- The address, if an instruction can be there. -/
def ofWord (x : BitVec 64) : Option CodeAddr :=
  if h : x.extractLsb' 0 2 = 0 then some ⟨x, h⟩ else none

/-- The word with its two low bits cleared. -/
def floor (x : BitVec 64) : CodeAddr where
  val := x.extractLsb' 2 62 ++ 0#2
  aligned := BitVec.extractLsb'_append_eq_right

end CodeAddr

/-- The bits of `mtvec` that are implemented. -/
def vectorMask : BitVec 64 := 0xfffffc#64

/-- Where traps go. -/
@[ext]
structure TrapVector where
  val : BitVec 64
  implemented : val &&& ~~~vectorMask = 0

namespace TrapVector

/-- A write to `mtvec`. -/
def ofWord (x : BitVec 64) : TrapVector where
  val := x &&& vectorMask
  implemented := by
    rw [BitVec.and_assoc, BitVec.and_not_self]
    exact BitVec.and_zero

/-- The address of the handler. -/
def addr (v : TrapVector) : CodeAddr := CodeAddr.floor v.val

end TrapVector

/-! ## State -/

/-- The state of the hart. -/
structure Hart where
  pc : CodeAddr
  regs : Regs
  memory : ByteMem 15
  mode : Privilege
  mpp : Privilege
  mpie : Bool
  mie : Bool
  mtvec : TrapVector
  mepc : CodeAddr
  mcause : BitVec 64
  mscratch : BitVec 64
  cycles : BitVec 64

/-- `mstatus`: UXL is 64-bit, and of the other fields MPP, MPIE and MIE are there. -/
def statusWord (mpp : BitVec 2) (mpie mie : Bool) : BitVec 64 :=
  0b1#31 ++ 0#20 ++ mpp ++ 0#3 ++ BitVec.ofBool mpie ++ 0#3 ++ BitVec.ofBool mie ++ 0#3

/-- The exceptions of the hart. -/
inductive Exception
  | fetch | illegal | breakpoint | load | store | ecall
  deriving DecidableEq

/-- The code of an exception out of the given mode. -/
def Exception.code (mode : Privilege) : Exception → BitVec 64
  | fetch => 0
  | illegal => 2
  | breakpoint => 3
  | load => 4
  | store => 6
  | ecall => match mode with
    | .user => 8
    | .machine => 11

namespace Hart

/-- `mstatus`. -/
def mstatus (h : Hart) : BitVec 64 := statusWord h.mpp.bits h.mpie h.mie

/-- On to the next instruction. -/
def skip (h : Hart) : Hart := { h with pc := h.pc.next }

/-- On to the next instruction, with a result. -/
def compute (rd : BitVec 5) (v : BitVec 64) (h : Hart) : Hart :=
  { h with pc := h.pc.next, regs := h.regs.write rd v }

/-- Trap entry, when exceptions are enabled. -/
def raise (e : Exception) (h : Hart) : Hart :=
  if h.mie then
    { h with
      pc := h.mtvec.addr
      mode := .machine
      mpp := h.mode
      mpie := true
      mie := false
      mepc := h.pc
      mcause := e.code h.mode }
  else h.skip

/-- `mret`. -/
def trapReturn (h : Hart) : Hart :=
  { h with pc := h.mepc, mode := h.mpp, mpp := .user, mpie := true, mie := h.mpie }

/-- A transfer of control, with the register it links in. -/
def jump (target : BitVec 64) (link : Option (BitVec 5)) (h : Hart) : Hart :=
  match CodeAddr.ofWord target with
  | some a => { h with
      pc := a
      regs := match link with
        | some rd => h.regs.write rd h.pc.next.val
        | none => h.regs }
  | none => h.raise .fetch

end Hart

/-! ## Memory access -/

/-- The access stays in one 8-byte word. -/
def Fits (addr : BitVec 64) (bytes : ℕ) : Prop := (addr.extractLsb' 0 3).toNat + bytes ≤ 8

instance (addr : BitVec 64) (bytes : ℕ) : Decidable (Fits addr bytes) :=
  inferInstanceAs (Decidable (_ ≤ 8))

def LoadOp.bytes : LoadOp → ℕ
  | lb | lbu => 1
  | lh | lhu => 2
  | lw | lwu => 4
  | ld => 8

/-- The value loaded. -/
def LoadOp.value (m : ByteMem 15) (addr : BitVec 15) (o : LoadOp) : BitVec 64 :=
  match o with
  | lb | lh | lw | ld => m.loadS 64 addr o.bytes
  | lbu | lhu | lwu => m.loadU 64 addr o.bytes

def StoreOp.bytes : StoreOp → ℕ
  | sb => 1
  | sh => 2
  | sw => 4
  | sd => 8

namespace Hart

/-- A load from `addr` into `rd`. -/
def load (o : LoadOp) (rd : BitVec 5) (addr : BitVec 64) (h : Hart) : Hart :=
  if Fits addr o.bytes then h.compute rd (o.value h.memory (addr.setWidth 15)) else h.raise .load

/-- A store of the low bytes of `v` at `addr`. -/
def store (o : StoreOp) (addr v : BitVec 64) (h : Hart) : Hart :=
  if Fits addr o.bytes then { h.skip with memory := h.memory.store (addr.setWidth 15) o.bytes v }
  else h.raise .store

end Hart

/-! ## CSRs -/

/-- The CSRs of the hart. -/
inductive Csr
  | misa | mvendorid | marchid | mimpid | mhartid
  | mscratch | mstatus | mcause | mtvec | mepc
  | cycle
  deriving DecidableEq

namespace Csr

def addr : Csr → BitVec 12
  | misa => 0x301#12
  | mvendorid => 0xf11#12
  | marchid => 0xf12#12
  | mimpid => 0xf13#12
  | mhartid => 0xf14#12
  | mscratch => 0x340#12
  | mstatus => 0x300#12
  | mcause => 0x342#12
  | mtvec => 0x305#12
  | mepc => 0x341#12
  | cycle => 0xc00#12

def all : List Csr :=
  [misa, mvendorid, marchid, mimpid, mhartid, mscratch, mstatus, mcause, mtvec, mepc, cycle]

/-- The two top bits of the address of a read-only CSR are set. -/
def readOnly (c : Csr) : Bool := c.addr.extractLsb' 10 2 == 0b11#2

theorem mem_all (c : Csr) : c ∈ all := by
  cases c <;> decide

theorem addr_injective : Function.Injective addr := by
  intro c c' h
  cases c <;> cases c' <;> first | rfl | exact absurd h (by decide)

theorem pick_addr (c : Csr) : pick all addr c.addr = some c :=
  pick_code mem_all addr_injective c

end Csr

namespace Hart

/-- The value of a CSR. The hart is RV64 with the base I and mode U, and the only one. -/
def csr (h : Hart) : Csr → BitVec 64
  | .misa => 0x8000000000100100#64
  | .mvendorid | .marchid | .mimpid | .mhartid => 0
  | .mscratch => h.mscratch
  | .mstatus => h.mstatus
  | .mcause => h.mcause
  | .mtvec => h.mtvec.val
  | .mepc => h.mepc.val
  | .cycle => h.cycles

/-- A write to a CSR: fields take legal values only. -/
def setCsr (v : BitVec 64) (h : Hart) : Csr → Hart
  | .mscratch => { h with mscratch := v }
  | .mstatus => { h with
      mpp := (Privilege.ofBits (v.extractLsb' 11 2)).getD h.mpp
      mpie := v.getLsbD 7
      mie := v.getLsbD 3 }
  | .mcause => { h with mcause := v }
  | .mtvec => { h with mtvec := .ofWord v }
  | .mepc => { h with mepc := .floor v }
  | _ => h

/-- A CSR instruction. -/
def accessCsr (o : CsrOp) (rd rs1 : BitVec 5) (a : BitVec 12) (h : Hart) : Hart :=
  match pick Csr.all Csr.addr a with
  | none => h.raise .illegal
  | some c =>
      if o.writes rs1 then
        if c.readOnly then h.raise .illegal
        else (h.compute rd (h.csr c)).setCsr (o.eval (o.operand h.regs.val rs1) (h.csr c)) c
      else h.compute rd (h.csr c)

/-! ## Instructions -/

/-- An instruction. -/
def exec (h : Hart) : Instr → Hart
  | .load o rd rs1 imm => h.load o rd (h.regs.val rs1 + imm.signExtend 64)
  | .store o rs1 rs2 immHigh immLow =>
      h.store o (h.regs.val rs1 + (immHigh ++ immLow).signExtend 64) (h.regs.val rs2)
  | .csr o rd rs1 a => h.accessCsr o rd rs1 a
  | .ecall => h.raise .ecall
  | .ebreak => h.raise .breakpoint
  | .mret => h.trapReturn
  | x => match x.result h.pc.val h.regs.val, x.nextPc h.pc.val h.regs.val with
    | some (rd, v), _ => h.compute rd v
    | none, some target => h.jump target x.link
    | none, none => h.skip

/-- The instruction the hart is at, in a ROM of 1024 words that repeats above them. -/
def fetch (rom : BitVec 10 → BitVec 32) (h : Hart) : BitVec 32 := rom (h.pc.val.extractLsb' 2 10)

/-- One step. -/
def step (rom : BitVec 10 → BitVec 32) (h : Hart) : Hart :=
  { match Instr.decode (h.fetch rom) with
    | some x => h.exec x
    | none => h.raise .illegal with
    cycles := h.cycles + 1 }

/-- A disturbance: some bits of a register change. -/
def flip (r : BitVec 5) (mask : BitVec 64) (h : Hart) : Hart :=
  { h with regs := h.regs.write r (h.regs.val r ^^^ mask) }

end Hart

end Isa

end PassiFlo
