import PassiFlo.Proof.Blocks

/-!
# Code that leaves the trap unit alone

What the trap unit holds need not be anything that a hart can hold: a flip of a return
address leaves the core at a misaligned PC, and a trap taken there puts that PC into
`mepc`. Code that does not look at the trap unit runs all the same, so a state is compared
with a hart here after its trap unit has been replaced.
-/

namespace PassiFlo

open Isa Lanes

namespace Core

variable {C : Chip} {i : Inputs} {s s' : State} {h : Hart} {a : CodeAddr} {code : List Instr}

/-- The state with the trap unit as it is out of reset, but for the cause. -/
def bare (s : State) : State :=
  { s with mode := 0b11#2, mstatus := mstatusInit, mtvec := 0, mepc := 0 }

@[simp] theorem bare_regs : (bare s).regs = s.regs := rfl

@[simp] theorem bare_ram : (bare s).ram = s.ram := rfl

@[simp] theorem instrMemText_bare : instrMemText C (bare s) = instrMemText C s := rfl

/-- Two states agree in the part that is replaced. -/
structure SameUnit (s s' : State) : Prop where
  mode : s'.mode = s.mode
  mstatus : s'.mstatus = s.mstatus
  mtvec : s'.mtvec = s.mtvec
  mepc : s'.mepc = s.mepc

theorem SameUnit.refl (s : State) : SameUnit s s := ⟨rfl, rfl, rfl, rfl⟩

theorem SameUnit.trans {s'' : State} (hl : SameUnit s s') (hr : SameUnit s' s'') :
    SameUnit s s'' where
  mode := hr.mode.trans hl.mode
  mstatus := hr.mstatus.trans hl.mstatus
  mtvec := hr.mtvec.trans hl.mtvec
  mepc := hr.mepc.trans hl.mepc

theorem SameUnit.mie (hu : SameUnit s s') : mie s' = mie s :=
  congrArg (fun x => x.getLsbD 3) hu.mstatus

/-- **Every state with an aligned PC** shows a hart, but for its trap unit. -/
theorem exists_shows_bare (hpc : s.pc.extractLsb' 0 2 = 0) (hzero : s.regs 0 = 0) :
    ∃ h, Shows C (bare s) h := by
  have hlegal : Implemented 0b11#2 ∧ Implemented (mstatusInit.extractLsb' 11 2) := by decide
  have hshape : mstatusInit &&& ~~~mstatusMask = mstatusInit := by decide
  exact exists_shows_iff.mpr
    ⟨hpc, hzero, ⟨hlegal.1, hlegal.2⟩, hshape, BitVec.zero_and, BitVec.extractLsb'_zero⟩

/-- Exceptions are masked out of reset. -/
theorem mie_bare : mie (bare s) = false := by
  have hbit : mstatusInit.getLsbD 3 = false := by decide
  exact hbit

/-! ## One cycle -/

/-- The control word asks nothing of the trap unit, and reads no CSR. -/
structure Unitless (d : MainDec) : Prop where
  trapReturn : d.trapReturn = false
  csrWriteEnable : d.csrWriteEnable = false
  aluSelect : d.aluSelect = false

instance (d : MainDec) : Decidable (Unitless d) :=
  decidable_of_iff (d.trapReturn = false ∧ d.csrWriteEnable = false ∧ d.aluSelect = false)
    ⟨fun ⟨h1, h2, h3⟩ => ⟨h1, h2, h3⟩, fun h => ⟨h.trapReturn, h.csrWriteEnable, h.aluSelect⟩⟩

/-- Only SYSTEM instructions do. -/
theorem unitless_of_opcode (hi : Unstalled i s) (hop : opcode (instrMemText C s) ≠ 0b1110011#7) :
    Unitless (ctl C i s).toMainDec := by
  rw [ctl_unstalled hi.stall]
  exact maindec_rule (P := fun op d => op ≠ 0b1110011#7 → Unitless d)
    (by decide +kernel) (fun _ _ _ => by decide) _ _ _ hop

theorem unitless_ebreak (hi : Unstalled i s) (hw : instrMemText C s = Instr.ebreak.encode) :
    Unitless (ctl C i s).toMainDec := by
  obtain ⟨hop, -, hf3, -, -, hf12⟩ := fields_of_eq_word hw
  rw [ctl_unstalled hi.stall, hop, hf3, hf12]
  decide

/-- What is read of a CSR goes nowhere but to the ALU of the CSR instructions. -/
theorem execute_csrRead (pc a b imm c c' : BitVec 64) (aluSrc regSel1 wArith : Bool)
    (aluControl : BitVec 4) :
    execute pc a b imm c aluSrc regSel1 wArith false aluControl =
      { execute pc a b imm c' aluSrc regSel1 wArith false aluControl with
        result1Atom :=
          (execute pc a b imm c aluSrc regSel1 wArith false aluControl).result1Atom } := by
  simp only [execute, Bool.false_eq_true, if_false]

/-- So what is computed and where a branch goes do not depend on the trap unit. -/
theorem exec_bare (hsel : (ctl C i s).aluSelect = false) :
    dmAddr C i (bare s) = dmAddr C i s ∧
      (exec C i (bare s)).pcBranch = (exec C i s).pcBranch ∧ pcSrc C i (bare s) = pcSrc C i s := by
  have hctl : ctl C i (bare s) = ctl C i s := rfl
  have hexec : exec C i (bare s) =
      { exec C i s with result1Atom := (exec C i (bare s)).result1Atom } := by
    rw [exec, exec, hctl, hsel]
    exact execute_csrRead _ _ _ _ _ _ _ _ _ _
  rw [dmAddr, pcSrc, hexec, hctl]
  exact ⟨rfl, rfl, rfl⟩

/-- While exceptions are masked no trap is taken. -/
theorem trapTrigger_masked (hm : mie s = false) : trapTrigger C i s = 0 := by
  rw [trapTrigger_eq, hm, if_neg Bool.false_ne_true]

/-- The trap unit rests, and the PC goes on or follows a branch. -/
theorem posedge_unitless (hi : Unstalled i s) (hd : Unitless (ctl C i s).toMainDec)
    (ht : trapTrigger C i s = 0) :
    SameUnit s (posedge C i s) ∧ (posedge C i s).mcause = s.mcause ∧
      (posedge C i s).pc = if pcSrc C i s then (exec C i s).pcBranch else s.pc + 4 := by
  have hcsr : csrWriteEnable C i s = false := hd.csrWriteEnable
  have hmtvec : (posedge C i s).mtvec = s.mtvec := by
    simp only [posedge, ExceptController.mtvecNext, hcsr, hi.reset, flopre, flopreInit,
      Bool.and_false, Bool.false_eq_true, if_false]
  obtain ⟨hmode, hmcause, hmepc, hmstatus⟩ := posedge_noTrap hi.reset ht hd.trapReturn
  rw [mstatusCSREnable, hcsr, Bool.and_false, if_neg Bool.false_ne_true] at hmstatus
  have hpc := posedge_pc (C := C) hi
  rw [ht, hd.trapReturn, if_neg (fun h => h rfl), if_neg Bool.false_ne_true] at hpc
  exact ⟨⟨hmode, hmstatus, hmtvec, hmepc⟩, hmcause, hpc⟩

/-- **One cycle** that takes no trap is the same cycle without the trap unit. -/
theorem bare_posedge (hi : Unstalled i s) (hd : Unitless (ctl C i s).toMainDec)
    (ht : trapTrigger C i s = 0) :
    bare (posedge C i s) = posedge C i (bare s) ∧ SameUnit s (posedge C i s) := by
  have hib : Unstalled i (bare s) := ⟨hi.reset, hi.stall⟩
  have hctl : ctl C i (bare s) = ctl C i s := rfl
  obtain ⟨haddr, hbranch, hsrc⟩ := exec_bare (C := C) (i := i) hd.aluSelect
  have hport : dmemPort C i (bare s) = dmemPort C i s := by
    simp only [dmemPort, haddr, hctl, dmReadEnable, dmWriteEnable, dmWriteData, dec, decode,
      bare_regs, instrMemText_bare]
  have hdata : writeData3 C i (bare s) = writeData3 C i s := by
    simp only [writeData3, readDataMasked, readData, haddr, hport, hctl, bare_ram]
  obtain ⟨hunit, hmcause, hpc⟩ := posedge_unitless hi hd ht
  obtain ⟨hunitb, hmcauseb, hpcb⟩ :=
    posedge_unitless (C := C) hib (hctl ▸ hd) (trapTrigger_masked mie_bare)
  rw [hsrc, hbranch] at hpcb
  refine ⟨State.ext (hpc.trans hpcb.symm) ?_ ?_ hunitb.mode.symm hunitb.mstatus.symm
    (hmcause.trans hmcauseb.symm) hunitb.mtvec.symm hunitb.mepc.symm rfl rfl rfl, hunit⟩
  · rw [posedge_regs hib.stall, hdata, hctl]
    exact posedge_regs hi.stall
  · change C.ramClock s.ram (dmemPort C i s) = C.ramClock s.ram (dmemPort C i (bare s))
    rw [hport]

/-! ## Instructions -/

/-- A plain instruction other than a CSR instruction. -/
def silent : Instr → Bool
  | .csr _ _ _ _ => false
  | x => x.plain

theorem plain_of_silent {x : Instr} (hx : silent x = true) : x.plain = true := by
  cases x with
  | csr => exact absurd hx Bool.false_ne_true
  | lui | auipc | opImm | addiw | op | fence | store => exact hx
  | jal | jalr | branch | load | shiftImm | shiftImmW | opW | ecall | ebreak | mret => exact hx

/-- A silent instruction is one that the decoder knows, and neither a load nor SYSTEM. -/
theorem opcode_silent {x : Instr} (hx : silent x = true) :
    opcode x.encode ∈ opcodes ∧ opcode x.encode ≠ 0b0000011#7 ∧ opcode x.encode ≠ 0b1110011#7 := by
  cases x with
  | lui | auipc =>
      rw [Instr.encode, wordU, opcode_word]
      decide
  | opImm | addiw | op | fence | store =>
      rw [Instr.encode, opcode_word]
      decide
  | csr | jal | jalr | branch | load | shiftImm | shiftImmW | opW | ecall | ebreak | mret =>
      exact absurd hx Bool.false_ne_true

/-- A silent store is one to a fixed place inside a word. -/
theorem silent_store {x : Instr} (hx : silent x = true) (hop : opcode x.encode = 0b0100011#7) :
    ∃ o r hi lo, x = .store o 0 r hi lo ∧ Fits ((hi ++ lo).signExtend 64) o.bytes := by
  cases x with
  | store o r r' hi lo =>
      obtain ⟨hr, hfit⟩ := Bool.and_eq_true_iff.mp hx
      obtain rfl := eq_of_beq hr
      exact ⟨o, r', hi, lo, rfl, of_decide_eq_true hfit⟩
  | lui | auipc =>
      rw [Instr.encode, wordU, opcode_word] at hop
      exact absurd hop (by decide)
  | opImm | addiw | op | fence =>
      rw [Instr.encode, opcode_word] at hop
      exact absurd hop (by decide)
  | csr | jal | jalr | branch | load | shiftImm | shiftImmW | opW | ecall | ebreak | mret =>
      exact absurd hx Bool.false_ne_true

/-- **A silent instruction** raises nothing. -/
theorem exceptSignal_silent (hs : Shows C (bare s) h) {x : Instr} (hx : silent x = true)
    (hw : instrMemText C s = x.encode) : exceptSignal C Inputs.idle s = 0 := by
  have hop := opcode_silent hx
  rw [← hw] at hop
  obtain ⟨hin, hload, hsys⟩ := hop
  by_contra hraise
  obtain ⟨t, ht⟩ := exists_raises idle_unstalled.stall hraise
  cases t with
  | ecall | ebreak => exact hsys ht.1
  | illegal => exact ht.elim (fun hno => hno hin) fun hill => hsys hill.1
  | load => exact hload ht.1
  | store =>
      obtain ⟨o, r, hi, lo, rfl, hfit⟩ := silent_store hx (hw ▸ ht.1)
      obtain ⟨-, -, hf3, haddr⟩ := store_fields hw
      have hzero : s.regs 0 = 0 := hs.regs_zero
      have hplace : storeAddr s (instrMemText C s) = (hi ++ lo).signExtend 64 := by
        rw [haddr, hzero]
        exact BitVec.zero_add _
      have hcross := ht.2
      rw [hplace, hf3, storeBytes] at hcross
      exact absurd hfit (Nat.not_le.mpr hcross)

/-- **One step** that asks nothing of the trap unit and takes no trap. -/
theorem bare_step (hd : Unitless (ctl C Inputs.idle s).toMainDec)
    (ht : trapTrigger C Inputs.idle s = 0) :
    bare (step C s) = step C (bare s) ∧ SameUnit s (step C s) := by
  rw [step, step, cycle_eq_posedge rfl, cycle_eq_posedge rfl]
  exact bare_posedge idle_unstalled hd ht

/-- Any other than a SYSTEM instruction, while exceptions are masked. -/
theorem bare_masked (hs : Shows C (bare s) h) (hm : mie s = false) {x : Instr}
    (hfetch : h.fetch C.rom = x.encode) (hop : opcode x.encode ≠ 0b1110011#7) :
    bare (step C s) = step C (bare s) ∧ SameUnit s (step C s) := by
  have hw : instrMemText C s = x.encode := hs.fetch.trans hfetch
  exact bare_step (unitless_of_opcode idle_unstalled (hw ▸ hop)) (trapTrigger_masked hm)

/-- A breakpoint is passed over while exceptions are masked. -/
theorem bare_skip (hram : C.Altsyncram) (hs : Shows C (bare s) h) (hm : mie s = false)
    (hfetch : h.fetch C.rom = Instr.ebreak.encode) :
    Shows C (bare (step C s)) { h.skip with cycles := h.cycles + 1 } ∧
      SameUnit s (step C s) := by
  have hw : instrMemText C s = Instr.ebreak.encode := hs.fetch.trans hfetch
  obtain ⟨hbare, hunit⟩ :=
    bare_step (unitless_ebreak idle_unstalled hw) (trapTrigger_masked hm)
  have hs' := step_ebreak_shows hram hs hfetch
  rw [Hart.raise, ← hs.mie, mie_bare, if_neg Bool.false_ne_true] at hs'
  exact ⟨hbare ▸ hs', hunit⟩

/-- A silent instruction, whether exceptions are masked or not. -/
theorem bare_advance (hram : C.Altsyncram) (hs : Shows C (bare s) h) {x : Instr}
    (hx : silent x = true) (hfetch : h.fetch C.rom = x.encode) :
    Shows C (bare (step C s)) (h.advance x) ∧ SameUnit s (step C s) := by
  have hw : instrMemText C s = x.encode := hs.fetch.trans hfetch
  have hsys : opcode (instrMemText C s) ≠ 0b1110011#7 := hw ▸ (opcode_silent hx).2.2
  have htrap : trapTrigger C Inputs.idle s = 0 := by
    rw [trapTrigger_eq, exceptSignal_silent hs hx hw, ite_self]
  obtain ⟨hbare, hunit⟩ := bare_step (unitless_of_opcode idle_unstalled hsys) htrap
  exact ⟨hbare ▸ step_advance hram hs hfetch (not_deviates_plain hs (plain_of_silent hx)), hunit⟩

/-- **Silent code** is run to its end, and does not end the program. -/
theorem bare_block (hram : C.Altsyncram) (hcode : Code C.rom a code)
    (hsilent : code.all silent = true) (hs : Shows C (bare s) h) (hpc : h.pc = a) :
    Shows C (bare ((step C)^[code.length] s)) (h.execs code) ∧
      SameUnit s ((step C)^[code.length] s) ∧
      (Finished ((step C)^[code.length] s) ↔ Finished s) := by
  obtain ⟨⟨hshown, hunit⟩, hend⟩ := run_block_of
    (R := fun t h => Shows C (bare t) h ∧ SameUnit s t) (p := silent)
    (fun _ _ ht => ht.1.fetch) (fun _ => plain_of_silent)
    (fun _ _ _ ht hx hfetch => by
      obtain ⟨hnext, hunit⟩ := bare_advance hram ht.1 hx hfetch
      exact ⟨hnext, ht.2.trans hunit⟩) hcode hsilent ⟨hs, SameUnit.refl s⟩ hpc
  exact ⟨hshown, hunit, hend⟩

/-- **What a CSR holds** is read as it is. -/
theorem bare_csrr (hram : C.Altsyncram) (hs : Shows C (bare s) h) {d : BitVec 5} {c : Csr}
    (hc : c.addr ≠ 0x300#12 ∧ c.addr ≠ 0x305#12) (hfetch : h.fetch C.rom = (csrr d c).encode) :
    Shows C (bare (step C s))
        { h.compute d (csrRead C s c.addr) with cycles := h.cycles + 1 } ∧
      SameUnit s (step C s) := by
  have hw : instrMemText C s = (Instr.csr .csrrs d 0 c.addr).encode := hs.fetch.trans hfetch
  have hf := csrFrame hram (idle_unstalled (s := s)) hw
  have hmstatus := csr_mstatus (idle_unstalled (s := s)) hw
  have hmtvec := csr_mtvec (idle_unstalled (s := s)) hw
  rw [if_neg hc.1] at hmstatus
  rw [if_neg hc.2] at hmtvec
  rw [step, cycle_eq_posedge rfl]
  have hsame : SameCsrs (bare s) (bare (posedge C Inputs.idle s)) :=
    ⟨rfl, rfl, rfl, rfl, hf.mcause, hf.cycles⟩
  exact ⟨(shows_compute_iff hs hsame hf.pc hf.regs hf.words).mpr (.inr rfl),
    hf.mode, hmstatus, hmtvec, hf.mepc⟩

/-- A trap masks exceptions. -/
theorem mie_trap (hi : Unstalled i s) (ht : trapTrigger C i s ≠ 0) :
    mie (posedge C i s) = false := by
  rw [mie, (posedge_trap hi.reset ht).2.1, mstatusMerge_getLsbD _ _ (by decide), if_pos rfl]
  exact BitVec.getLsbD_append.trans (if_pos (by decide))

/-- **A breakpoint** that is taken leads to the handler. -/
theorem bare_break (hram : C.Altsyncram) (hs : Shows C (bare s) h) (hm : mie s = true)
    (ha : s.mtvec.extractLsb' 2 62 ++ 0#2 = a.val)
    (hfetch : h.fetch C.rom = Instr.ebreak.encode) :
    Shows C (bare (step C s)) { h with pc := a, mcause := 3, cycles := h.cycles + 1 } ∧
      mie (step C s) = false := by
  have hi : Unstalled Inputs.idle s := idle_unstalled
  have hw : instrMemText C s = Instr.ebreak.encode := hs.fetch.trans hfetch
  obtain ⟨hop, -, hf3, -, -, hf12⟩ := fields_of_eq_word hw
  have ht : Raises s (instrMemText C s) .ebreak := ⟨hop, hf3, hf12⟩
  have htrap : trapTrigger C Inputs.idle s ≠ 0 := (trapTrigger_iff_raises hi.stall hm).mpr ⟨_, ht⟩
  obtain ⟨hregs, hwords⟩ := (noEffect_iff hram hi.stall).mpr
    (noEffect_decoded hi ht (by rw [hop]; decide) (by rw [hop]; decide) (by decide))
  have hpc := posedge_pc (C := C) hi
  rw [if_pos htrap, ha] at hpc
  have hcycles : (posedge C Inputs.idle s).cycles = s.cycles + 1 := by
    simp only [posedge, hi.reset, hi.stall, flopre, flopreInit, Bool.not_false,
      Bool.false_eq_true, if_false, if_true]
  rw [step, cycle_eq_posedge rfl]
  refine ⟨⟨hpc, hregs.trans hs.regs, ?_, hs.mode, hs.mstatus, hs.mtvec, hs.mepc,
    posedge_mcause hi hm ht, hs.mscratch, hcycles.trans (congrArg (· + 1) hs.cycles)⟩,
    mie_trap hi htrap⟩
  exact (congrArg ByteMem.ofWords hwords).trans hs.memory

end Core

end PassiFlo
