import PassiFlo.Proof.CsrAccess
import PassiFlo.Isa.Decode

/-!
# The CSRs that are no store

`csr_dec` lists `mscratch` and `mepc` as readable and writable. Behind `mscratch` there
is no register at all, and the enable of `mepc` no longer looks at CSR writes. A ledger
kept beside the run records what the program last wrote to each; what a set or a clear
writes is made of the value in the ledger, not of the one the core reads. Reads agree with
it only where the program wrote the value that is there anyway.
-/

namespace PassiFlo

open Isa Clocked

/-- The two CSRs under consideration. -/
inductive StoreCsr
  | mscratch | mepc
  deriving DecidableEq

namespace StoreCsr

def addr : StoreCsr → BitVec 12
  | mscratch => 0x340#12
  | mepc => 0x341#12

def all : List StoreCsr := [mscratch, mepc]

/-- The bits a read is held to: `mepc` is free in its two low bits. -/
def kept : StoreCsr → BitVec 64
  | mscratch => BitVec.allOnes 64
  | mepc => ~~~3#64

/-- What is there without a trap: the undriven wire, and the reset value. -/
def fixed (C : Chip) : StoreCsr → BitVec 64
  | mscratch => C.undriven
  | mepc => 0

end StoreCsr

namespace Core

variable {C : Chip} {i : Inputs} {s : State}

/-- The value a CSR instruction reads at address `a`. -/
def csrRead (C : Chip) (s : State) (a : BitVec 12) : BitVec 64 := csrDec 0 a (csrOut C s)

/-! ## The ledger -/

/-- What was last written to each of the two since the last reset. -/
abbrev Ledger := StoreCsr → Option (BitVec 64)

/-- What the CSR holds if it is a store: before the first write, what it shows. -/
def stored (C : Chip) (p : State × Ledger) (c : StoreCsr) : BitVec 64 :=
  (p.2 c).getD (csrRead C p.1 c.addr)

/-- The CSR write of this cycle: what the executed instruction makes of the stored value. -/
def csrWritten (C : Chip) (i : Inputs) (p : State × Ledger) : Option (StoreCsr × BitVec 64) :=
  if i.reset || coprocessorStall i p.1 then none
  else match Instr.decode (instrMemText C p.1) with
    | some (.csr o _ r a) =>
        if o.writes r then
          (pick StoreCsr.all StoreCsr.addr a).map fun c =>
            (c, o.eval (o.operand p.1.regs r) (stored C p c))
        else none
    | _ => none

/-- A clock cycle of the core, and the entry it makes. -/
def ledgerNext (C : Chip) (i : Inputs) (p : State × Ledger) : State × Ledger :=
  (cycle C i p.1,
    if i.reset then fun _ => none
    else match csrWritten C i (settle i p.1, p.2) with
      | some (c, v) => Function.update p.2 c (some v)
      | none => p.2)

/-- This cycle reads CSR `c` into register `d`, after a write of `v`. -/
structure ReadsBack (C : Chip) (i : Inputs) (p : State × Ledger) (c : StoreCsr) (d : BitVec 5)
    (v : BitVec 64) : Prop where
  unstalled : Unstalled i (settle i p.1)
  instr : ∃ o r, instrMemText C (settle i p.1) = (Instr.csr o d r c.addr).encode
  rd : d ≠ 0
  written : p.2 c = some v

/-- The cycle treats `mscratch` and `mepc` as a store does. -/
structure StoreLike (C : Chip) (i : Inputs) (p : State × Ledger) : Prop where
  /-- A read returns what was last written. -/
  readBack : ∀ c d v, ReadsBack C i p c d v →
    (cycle C i p.1).regs d &&& c.kept = v &&& c.kept
  /-- An access to one of them changes no other CSR; the cycle counter counts. -/
  alone : ∀ (c : StoreCsr) o d r, Unstalled i (settle i p.1) →
    instrMemText C (settle i p.1) = (Instr.csr o d r c.addr).encode → ∀ a ≠ c.addr,
      csrRead C (cycle C i p.1) a =
        csrRead C (settle i p.1) a + if a = 0xc00#12 then 1 else 0

/-- What the program reads back is the value that is there anyway. -/
def WroteFixed (C : Chip) (i : Inputs) (p : State × Ledger) : Prop :=
  ∀ c d v, ReadsBack C i p c d v → v &&& c.kept = c.fixed C &&& c.kept

/-! ## The cycle -/

/-- Only the cycle counter moves under an access to `mscratch` or `mepc`. -/
theorem csrRead_alone {o : CsrOp} {d r : BitVec 5} (c : StoreCsr) (hi : Unstalled i s)
    (hw : instrMemText C s = (Instr.csr o d r c.addr).encode) (a : BitVec 12) :
    csrRead C (posedge C i s) a = csrRead C s a + if a = 0xc00#12 then 1 else 0 := by
  have h300 : c.addr ≠ 0x300#12 := by cases c <;> decide
  have h305 : c.addr ≠ 0x305#12 := by cases c <;> decide
  rw [posedge_csr hi hw, if_neg h300, if_neg h305]
  by_cases ha : a = 0xc00#12
  · subst ha
    rfl
  · have hread : ∀ out : Fin 6 → BitVec 64,
        csrDec 0 a out = csrDec 0 a (Function.update out 5 0) := by
      intro out
      unfold csrDec
      rw [if_neg ha, if_neg ha]
      rfl
    rw [if_neg ha, csrRead, csrRead, hread, hread (csrOut C s)]
    refine Eq.trans ?_ (BitVec.add_zero _).symm
    congr 1
    funext k
    fin_cases k <;> rfl

/-- Without a trap, `mscratch` and `mepc` always show the same values. -/
theorem csrRead_fixed (c : StoreCsr) (h : s.mepc = 0) : csrRead C s c.addr = c.fixed C := by
  cases c with
  | mscratch => rfl
  | mepc => exact h

/-- **One cycle.** It is that of a store exactly if the read agrees with the fixed value. -/
theorem storeLike_iff {p : State × Ledger} (h : (settle i p.1).mepc = 0) :
    StoreLike C i p ↔ WroteFixed C i p := by
  have hvalue : ∀ c d v, ReadsBack C i p c d v → (cycle C i p.1).regs d = c.fixed C := by
    intro c d v hwrites
    obtain ⟨hi, ⟨o, r, hw⟩, hd, -⟩ := hwrites
    have hregs : (cycle C i p.1).regs = writeReg d (csrRead C (settle i p.1) c.addr)
        (settle i p.1).regs := by
      rw [cycle, posedge_csr hi hw]
      rfl
    rw [hregs, writeReg, if_neg hd, Function.update_self, csrRead_fixed c h]
  constructor
  · intro hs c d v hr
    rw [← hvalue c d v hr]
    exact (hs.readBack c d v hr).symm
  · intro hf
    refine ⟨fun c d v hr => ?_, fun c o d r hi hw a _ => csrRead_alone c hi hw a⟩
    rw [hvalue c d v hr]
    exact (hf c d v hr).symm

theorem mepc_settle (h : s.mepc = 0) : (settle i s).mepc = 0 := by
  unfold settle
  cases i.reset with
  | true => rfl
  | false => exact h

/-- Nothing but a trap writes `mepc`. -/
theorem mepc_posedge (h : s.mepc = 0) (ht : trapTrigger C i s = 0) : (posedge C i s).mepc = 0 := by
  simp only [posedge, ExceptController.mepcNext, flopre, flopreInit, exceptCSREnable_eq, ht]
  cases i.reset with
  | true => rfl
  | false => exact h

/--
**Machine CSRs as a store.** In a run from reset without traps, `mscratch` and `mepc` are
one exactly as long as the program only reads them back after writing the fixed value.
-/
theorem machine_csrs_iff (C : Chip) (j : Inputs) (s : State) (is : List Inputs)
    (hno : Along C (fun i t => trapTrigger C i (settle i t) = 0) is
      (settle { j with reset := true } s)) :
    Clocked.Along (ledgerNext C) (StoreLike C) is
        (settle { j with reset := true } s, fun _ => none) ↔
      Clocked.Along (ledgerNext C) (WroteFixed C) is
        (settle { j with reset := true } s, fun _ => none) := by
  have hstep : ∀ (i : Inputs) (p : State × Ledger), (ledgerNext C i p).1 = cycle C i p.1 :=
    fun _ _ => rfl
  have hproj : Clocked.Along (ledgerNext C) (fun i p => trapTrigger C i (settle i p.1) = 0) is
      (settle { j with reset := true } s, fun _ => none) :=
    (along_map (P := fun i t => trapTrigger C i (settle i t) = 0) hstep is _).mpr hno
  refine along_congr (I := fun p => p.1.mepc = 0) (fun i p ht hp => ?_) is _ hproj rfl
  have hset := mepc_settle (i := i) hp
  exact ⟨storeLike_iff hset, mepc_posedge hset ht⟩

/-- `csrwi mscratch, 0` and `csrr x1, mscratch`, on a chip whose undriven wires are low. -/
def scratchZero : Chip := Chip.ofProgram [0x34005073#32, 0x340020f3#32]

/-- `csrwi mepc, 4` and `csrr x1, mepc`. -/
def mepcFour : Chip := Chip.ofProgram [0x34125073#32, 0x341020f3#32]

/-- Writing the zero that is there anyway. -/
theorem machine_csrs_scratch_zero :
    Clocked.Along (ledgerNext scratchZero) (StoreLike scratchZero) [Inputs.idle, Inputs.idle]
      (settle Inputs.resetOnly (State.released (fun _ => 0) 0), fun _ => none) := by
  refine (machine_csrs_iff scratchZero Inputs.idle (State.released (fun _ => 0) 0)
    [Inputs.idle, Inputs.idle] ⟨by decide +kernel, by decide +kernel, trivial⟩).mpr
    ⟨?_, ?_, trivial⟩
  · exact fun c d v hr => absurd hr.written (by simp)
  · intro c d v hr
    have hzero : (ledgerNext scratchZero Inputs.idle
        (settle Inputs.resetOnly (State.released (fun _ => 0) 0), fun _ => none)).2 .mscratch =
        some 0 := by decide +kernel
    have hnone : (ledgerNext scratchZero Inputs.idle
        (settle Inputs.resetOnly (State.released (fun _ => 0) 0), fun _ => none)).2 .mepc =
        none := by decide +kernel
    cases c with
    | mscratch =>
        obtain rfl := Option.some.inj (hzero.symm.trans hr.written)
        rfl
    | mepc => exact absurd (hnone.symm.trans hr.written) (by simp)

/-- `mepc` keeps its reset value: `csrr x1, mepc` after `csrwi mepc, 4` returns 0. -/
theorem machine_csrs_mepc_lost :
    ¬ ∀ (C : Chip) (j : Inputs) (s : State) (is : List Inputs),
      Along C (fun i t => trapTrigger C i (settle i t) = 0) is
        (settle { j with reset := true } s) →
      Clocked.Along (ledgerNext C) (StoreLike C) is
        (settle { j with reset := true } s, fun _ => none) := by
  intro h
  have hrun := h mepcFour Inputs.idle (State.released (fun _ => 0) 0) [Inputs.idle, Inputs.idle]
    ⟨by decide +kernel, by decide +kernel, trivial⟩
  have hread := hrun.2.1.readBack .mepc 1 4
    ⟨⟨rfl, by decide +kernel⟩, ⟨.csrrs, 0, by decide +kernel⟩, by decide, by decide +kernel⟩
  revert hread
  decide +kernel

end Core

end PassiFlo
