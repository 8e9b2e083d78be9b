import PassiFlo.Isa.Block
import PassiFlo.Proof.HartRefinement
import PassiFlo.Proof.Injector

/-!
# Running code on the core

Code in the ROM, executed by the core under idle pins. What a block of plain instructions
does is what the hart does with it; jumps, and the two ways an `ebreak` goes, are steps of
their own.
-/

namespace PassiFlo

open Isa Lanes

namespace Core

variable {C : Chip} {s : State} {h : Hart} {a : CodeAddr} {code : List Instr}

/-- **One instruction** that does not deviate. -/
theorem step_advance (hram : C.Altsyncram) (hs : Shows C s h) {x : Instr}
    (hx : h.fetch C.rom = x.encode) (hd : ¬ InstrDeviates C s x) :
    Shows C (step C s) (h.advance x) := by
  rw [step, cycle_eq_posedge rfl]
  exact (step_instr hram idle_unstalled hs (hs.fetch.trans hx)).mpr hd

/-- A plain instruction never deviates. -/
theorem not_deviates_plain (hs : Shows C s h) {x : Instr} (hx : x.plain = true) :
    ¬ InstrDeviates C s x := by
  cases x with
  | lui | auipc | opImm | addiw | op | fence => exact id
  | store o r r' hi lo =>
      obtain ⟨hr, hfit⟩ := Bool.and_eq_true_iff.mp hx
      obtain rfl := eq_of_beq hr
      have haddr : s.regs 0 + (hi ++ lo).signExtend 64 = (hi ++ lo).signExtend 64 := by
        rw [hs.regs_zero]
        exact BitVec.zero_add _
      intro hdev
      refine hdev.1 ?_
      rw [haddr]
      exact of_decide_eq_true hfit
  | csr o d r c =>
      obtain ⟨hr, hc⟩ := Bool.and_eq_true_iff.mp hx
      obtain ⟨c', hc'⟩ := Option.isSome_iff_exists.mp hc
      intro hdev
      change CsrDeviates C s o d r c at hdev
      unfold CsrDeviates at hdev
      rw [hc'] at hdev
      rw [(Bool.not_eq_true' _).mp hr] at hdev
      exact Bool.false_ne_true hdev.1
  | jal | jalr | branch | load | shiftImm | shiftImmW | opW | ecall | ebreak | mret =>
      exact absurd hx Bool.false_ne_true

/-! ## The end of the program -/

/-- The word is `ebreak`, whatever its register fields. -/
def Breaks (w : BitVec 32) : Prop :=
  opcode w = 0b1110011#7 ∧ funct3 w = 0b000#3 ∧ funct12 w = 0x001#12

/-- **The flag that the host polls** is raised by `ebreak` and by nothing else. -/
theorem finished_step_iff : Finished (step C s) ↔ Finished s ∨ Breaks (instrMemText C s) := by
  have hflag : (step C s).ebreakFlag = if (ctl C Inputs.idle s).exceptSignal.getLsbD 0 then
      (ctl C Inputs.idle s).exceptSignal.extractLsb' 0 1 else s.ebreakFlag := by
    have hcsr : Inputs.idle.csrDB = false := by decide
    rw [step, cycle_eq_posedge rfl]
    simp only [posedge, hcsr, flopre, flopreInit, Bool.false_and, Bool.or_false,
      Bool.false_eq_true, if_false]
    rfl
  rw [Finished, hflag, ctl_unstalled idle_unstalled.stall]
  by_cases hb : Breaks (instrMemText C s)
  · rw [hb.1, hb.2.1, hb.2.2]
    exact iff_of_true rfl (.inr hb)
  · rw [or_iff_left hb]
    rcases maindec_except_cases (opcode (instrMemText C s)) (funct3 (instrMemText C s))
      (funct12 (instrMemText C s)) with h0 | ⟨h4, -⟩ | ⟨h2, -⟩ | ⟨-, hw⟩
    · rw [h0]
      exact Iff.rfl
    · rw [h4]
      exact Iff.rfl
    · rw [h2]
      exact Iff.rfl
    · exact absurd hw hb

theorem finished_ebreak (hw : instrMemText C s = Instr.ebreak.encode) : Finished (step C s) := by
  obtain ⟨hop, -, hf3, -, -, hf12⟩ := fields_of_eq_word hw
  exact finished_step_iff.mpr (.inr ⟨hop, hf3, hf12⟩)

/-- A plain instruction does not break. -/
theorem not_breaks_plain {x : Instr} (hx : x.plain = true) : ¬ Breaks x.encode := by
  intro hb
  obtain ⟨hop, hf3, -⟩ := hb
  cases x with
  | csr o d r a =>
      rw [funct3_csr] at hf3
      exact absurd hf3 (by cases o <;> decide)
  | lui | auipc =>
      rw [Instr.encode, wordU, opcode_word] at hop
      exact absurd hop (by decide)
  | opImm | addiw | op | fence | store =>
      rw [Instr.encode, opcode_word] at hop
      exact absurd hop (by decide)
  | jal | jalr | branch | load | shiftImm | shiftImmW | opW | ecall | ebreak | mret =>
      exact absurd hx Bool.false_ne_true

/-! ## Straight-line code -/

/-- The instruction at an address of the code. -/
theorem fetch_code (rom : BitVec 10 → BitVec 32) (hcode : Code rom a code) {k : ℕ} {x : Instr}
    (hk : code[k]? = some x) (hpc : h.pc = a.plus k) : h.fetch rom = x.encode := by
  rw [Hart.fetch, hpc]
  exact hcode k x hk

/-- The code of a chip made for it. -/
theorem code_ofProgram {code : List Instr} (hlen : code.length ≤ 1024) :
    Code (Chip.ofProgram (code.map Instr.encode)).rom origin code := by
  intro k x hx
  have hk : k < code.length := (List.getElem?_eq_some_iff.mp hx).1
  have haddr : ((origin.plus k).val.extractLsb' 2 10).toNat = k := by
    change ((0#64 + BitVec.ofNat 64 (4 * k)).extractLsb' 2 10).toNat = k
    rw [BitVec.zero_add, BitVec.extractLsb'_toNat, BitVec.toNat_ofNat, Nat.shiftRight_eq_div_pow]
    omega
  change (code.map Instr.encode).getD _ 0 = _
  rw [haddr, List.getD_eq_getElem?_getD, List.getElem?_map, hx]
  rfl

/-- A block of plain instructions is run to its end, and does not end the program, under any
relation that shows the next instruction and that each of them keeps. -/
theorem run_block_of {R : State → Hart → Prop} {p : Instr → Bool}
    (hfetch : ∀ t h, R t h → instrMemText C t = h.fetch C.rom)
    (hplain : ∀ x, p x = true → x.plain = true)
    (hstep : ∀ t h x, R t h → p x = true → h.fetch C.rom = x.encode →
      R (step C t) (h.advance x))
    (hcode : Code C.rom a code) (hall : code.all p = true) (hs : R s h) (hpc : h.pc = a) :
    R ((step C)^[code.length] s) (h.execs code) ∧
      (Finished ((step C)^[code.length] s) ↔ Finished s) := by
  induction code generalizing s h a with
  | nil => exact ⟨hs, Iff.rfl⟩
  | cons x xs ih =>
      obtain ⟨hx, hrest⟩ := Bool.and_eq_true_iff.mp (List.all_cons ▸ hall)
      have hword : h.fetch C.rom = x.encode :=
        fetch_code C.rom hcode (k := 0) rfl (hpc.trans (CodeAddr.plus_zero a).symm)
      have hnext := hstep s h x hs hx hword
      have hpc' := (Hart.execs_plain (h := h) [x] (by simp [hplain x hx])).1
      rw [hpc] at hpc'
      have hflag : Finished (step C s) ↔ Finished s := by
        rw [finished_step_iff, hfetch s h hs, hword, or_iff_left (not_breaks_plain (hplain x hx))]
      obtain ⟨hshown, hend⟩ := ih (hcode.slice 1 (List.prefix_refl xs)) hrest hnext hpc'
      rw [List.length_cons, Function.iterate_succ_apply]
      exact ⟨hshown, hend.trans hflag⟩

/-- **A block of plain instructions** does on the core what it does on the hart. -/
theorem run_block (hram : C.Altsyncram) (hcode : Code C.rom a code)
    (hplain : code.all Instr.plain = true) (hs : Shows C s h) (hpc : h.pc = a) :
    Shows C ((step C)^[code.length] s) (h.execs code) ∧
      (Finished ((step C)^[code.length] s) ↔ Finished s) :=
  run_block_of (fun _ _ ht => ht.fetch) (fun _ => id)
    (fun _ _ _ ht hx hfetch => step_advance hram ht hfetch (not_deviates_plain ht hx))
    hcode hplain hs hpc

/-! ## Jumps, CSRs and breakpoints -/

/-- **A jump** inside the code. -/
theorem step_jal_shows (hram : C.Altsyncram) (hs : Shows C s h) {d : BitVec 5} {x : BitVec 21}
    (hfetch : h.fetch C.rom = (jal d x).encode) (hx : x.getLsbD 0 = false)
    (ha : h.pc.val + x.signExtend 64 = a.val) :
    Shows C (step C s)
      { h with pc := a, regs := h.regs.write d h.pc.next.val, cycles := h.cycles + 1 } := by
  rw [← Hart.advance_jal hx ha]
  refine step_advance hram hs hfetch fun hdev => hdev ?_
  rw [jalOffset_jal hx, hs.pc, ha]
  exact a.aligned

/-- A jump that links nowhere. -/
theorem step_j (hram : C.Altsyncram) (hs : Shows C s h) {x : BitVec 21}
    (hfetch : h.fetch C.rom = (j x).encode) (hx : x.getLsbD 0 = false)
    (ha : h.pc.val + x.signExtend 64 = a.val) :
    Shows C (step C s) { h with pc := a, cycles := h.cycles + 1 } := by
  have hnext := step_jal_shows hram hs hfetch hx ha
  rwa [Regs.write_zero] at hnext

/-- **A branch** that compares for equality, or without signs. -/
theorem step_branchBy (hram : C.Altsyncram) (hs : Shows C s h) {o : BranchOp} {r r' : BitVec 5}
    {x : BitVec 13} (ho : o.signed = false) (hfetch : h.fetch C.rom = (branchBy o r r' x).encode)
    (hx : x.getLsbD 0 = false) (ha : h.pc.val + x.signExtend 64 = a.val) :
    Shows C (step C s) { h with
      pc := if o.taken (h.regs.val r) (h.regs.val r') then a else h.pc.next
      cycles := h.cycles + 1 } := by
  rw [← Hart.advance_branchBy hx ha]
  refine step_advance hram hs hfetch ?_
  have haligned : ¬ Misaligned (s.pc + branchOffset (x.extractLsb' 12 1 ++ x.extractLsb' 5 6)
      (x.extractLsb' 1 4 ++ x.extractLsb' 11 1)) := by
    rw [branchOffset_branchBy hx, hs.pc, ha]
    exact fun hmis => hmis a.aligned
  change ¬ (if _ then _ else _)
  rw [if_neg haligned]
  exact fun hover => Bool.false_ne_true (ho.symm.trans hover.1)

/-- Enabling exceptions: the immediate is one the sign extension does not change. -/
theorem step_enable (hram : C.Altsyncram) (hs : Shows C s h)
    (hfetch : h.fetch C.rom = (Instr.csr .csrrsi 0 8 Csr.mstatus.addr).encode) :
    Shows C (step C s) { h.skip with mie := true, cycles := h.cycles + 1 } := by
  have hseen : seenOperand s.regs 8 .csrrsi = CsrOp.csrrsi.operand s.regs 8 := by
    change (8#5).signExtend 64 = (8#5).setWidth 64
    decide
  have hmpp : ∀ (m : BitVec 2) (a b : Bool),
      (statusWord m a b ||| (8#5).setWidth 64).extractLsb' 11 2 = m := by decide
  rw [← Hart.advance_enable]
  refine step_advance hram hs hfetch ?_
  change ¬ CsrDeviates C s .csrrsi 0 8 Csr.mstatus.addr
  rw [CsrDeviates, Csr.pick_addr]
  intro hdev
  have hloses : LosesWrite C s _ _ .mstatus := hdev.2
  rw [hseen, hs.csr] at hloses
  rcases hloses with hne | hnone
  · exact hne rfl
  · change Privilege.ofBits ((h.mstatus ||| (8#5).setWidth 64).extractLsb' 11 2) = none at hnone
    rw [Hart.mstatus, hmpp, Privilege.ofBits_bits] at hnone
    exact absurd hnone (Option.some_ne_none _)

/-- Setting the trap vector. -/
theorem step_csrwMtvec (hram : C.Altsyncram) (hs : Shows C s h) {r : BitVec 5}
    (hfetch : h.fetch C.rom = (Instr.csr .csrrw 0 r Csr.mtvec.addr).encode) :
    Shows C (step C s)
      { h.skip with mtvec := .ofWord (h.regs.val r), cycles := h.cycles + 1 } := by
  rw [← Hart.advance_csrwMtvec]
  refine step_advance hram hs hfetch ?_
  change ¬ CsrDeviates C s .csrrw 0 r Csr.mtvec.addr
  rw [CsrDeviates, Csr.pick_addr]
  intro hdev
  exact hdev.2 rfl

/-- **An `ebreak`** goes the way of the hart. -/
theorem step_ebreak_shows (hram : C.Altsyncram) (hs : Shows C s h)
    (hfetch : h.fetch C.rom = Instr.ebreak.encode) :
    Shows C (step C s) { h.raise .breakpoint with cycles := h.cycles + 1 } :=
  step_advance hram hs hfetch id

end Core

end PassiFlo
