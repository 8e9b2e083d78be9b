import PassiFlo.Proof.Shows
import PassiFlo.Proof.Computation
import PassiFlo.Proof.TrapCause

/-!
# One step of the hart

For every instruction there is a condition under which the core does something else than
the hart. They are collected in `Deviates`, and one unstalled cycle from a state that
shows a hart shows the next state of the hart exactly if the instruction executed does
not deviate.
-/

namespace PassiFlo

open Isa Lanes

namespace Core

variable {C : Chip} {i : Inputs} {s s' : State} {h : Hart}

/-! ## Deviations -/

/-- No instruction can be at the address. -/
def Misaligned (x : BitVec 64) : Prop := x.extractLsb' 0 2 ≠ 0

instance (x : BitVec 64) : Decidable (Misaligned x) := inferInstanceAs (Decidable (_ ≠ _))

/-- The branch decision of the core. -/
def coreTaken (o : BranchOp) (a b : BitVec 64) : Bool :=
  o.taken a b ^^ (o.signed && a.ssubOverflow b)

/-- What a load from `addr` makes of the word it is shown. -/
def shownValue (o : LoadOp) (addr shown : BitVec 64) : BitVec 64 :=
  memReadMask shown (loadSigned o.funct3) (widthCode (loadSize o.funct3)) (addr.extractLsb' 0 3)

/-- The load writes another value than it should: a stale word, or the leak of a trapped load. -/
def LoadDeviates (s : State) (o : LoadOp) (d : BitVec 5) (addr : BitVec 64) : Prop :=
  d ≠ 0 ∧ shownValue o addr s.ram.latch ≠
    if Fits addr o.bytes then o.value (ByteMem.ofWords s.ram.words) (addr.setWidth 15)
    else s.regs d

/-- A trapped store leaks bytes into memory that were not there. -/
def StoreDeviates (s : State) (o : StoreOp) (addr v : BitVec 64) : Prop :=
  ¬ Fits addr o.bytes ∧ ∃ k < 8, (addr.extractLsb' 0 3).toNat ≤ k ∧
    byte (s.ram.words (addr.extractLsb' 3 12)) k ≠ byte v (k - (addr.extractLsb' 0 3).toNat)

/-- An illegal CSR instruction is run: no trap is taken, and what is read goes to `d`. -/
def RunsIllegal (C : Chip) (s : State) (d : BitVec 5) (a : BitVec 12) : Prop :=
  mie s = true ∨ d ≠ 0 ∧ csrRead C s a ≠ s.regs d

/-- The CSR does not take the value the hart takes for the value asked for. -/
def LosesWrite (C : Chip) (s : State) (computed asked : BitVec 64) : Csr → Prop
  | .mstatus => computed &&& mstatusMask ≠ asked &&& mstatusMask ∨
      Privilege.ofBits (asked.extractLsb' 11 2) = none
  | .mtvec => computed &&& vectorMask ≠ asked &&& vectorMask
  | .mepc => (CodeAddr.floor asked).val ≠ s.mepc
  | .mcause => asked ≠ s.mcause
  | .mscratch => asked ≠ C.undriven
  | _ => False

/-- The CSR instruction does something else than it should. -/
def CsrDeviates (C : Chip) (s : State) (o : CsrOp) (d r : BitVec 5) (a : BitVec 12) : Prop :=
  match pick Csr.all Csr.addr a with
  | none => RunsIllegal C s d a
  | some c => o.writes r = true ∧
      if c.readOnly then RunsIllegal C s d a
      else LosesWrite C s (o.eval (seenOperand s.regs r o) (csrRead C s a))
        (o.eval (o.operand s.regs r) (csrRead C s a)) c

/-- The core does something else than the hart. -/
def InstrDeviates (C : Chip) (s : State) : Instr → Prop
  | .jal _ imm => Misaligned (s.pc + jalOffset imm)
  | .jalr _ a imm => Misaligned ((s.regs a + imm.signExtend 64) &&& ~~~1#64)
  | .branch o a b immHigh immLow =>
      if Misaligned (s.pc + branchOffset immHigh immLow) then
        coreTaken o (s.regs a) (s.regs b) = true ∨
          o.taken (s.regs a) (s.regs b) = true ∧ mie s = true
      else SignedOverflow s (.branch o a b immHigh immLow)
  | .load o d a imm => LoadDeviates s o d (s.regs a + imm.signExtend 64)
  | .store o a b immHigh immLow =>
      StoreDeviates s o (s.regs a + (immHigh ++ immLow).signExtend 64) (s.regs b)
  | .csr o d r a => CsrDeviates C s o d r a
  | .ecall => mie s = true ∧ s.mode = 0b11#2
  | x => ShiftsInZeros s x

/-- The instruction executed in `s` deviates. -/
def Deviates (C : Chip) (s : State) : Prop :=
  ∃ x, Instr.decode (instrMemText C s) = some x ∧ InstrDeviates C s x

/-! ## Frames -/

/-- The cycle leaves the trap unit alone. -/
structure SameCsrs (s s' : State) : Prop where
  mode : s'.mode = s.mode
  mstatus : s'.mstatus = s.mstatus
  mtvec : s'.mtvec = s.mtvec
  mepc : s'.mepc = s.mepc
  mcause : s'.mcause = s.mcause
  cycles : s'.cycles = s.cycles + 1

/-- What is left to show when the trap unit is left alone. -/
theorem Shows.next (hs : Shows C s h) (hf : SameCsrs s s') (pc : CodeAddr) (regs : Regs)
    (memory : ByteMem 15) :
    Shows C s' { h with pc := pc, regs := regs, memory := memory, cycles := h.cycles + 1 } ↔
      s'.pc = pc.val ∧ s'.regs = regs.val ∧ ByteMem.ofWords s'.ram.words = memory := by
  constructor
  · exact fun h' => ⟨h'.pc, h'.regs, h'.memory⟩
  · intro hshown
    obtain ⟨hpc, hregs, hmemory⟩ := hshown
    exact
      { pc := hpc
        regs := hregs
        memory := hmemory
        mode := hf.mode.trans hs.mode
        mstatus := hf.mstatus.trans hs.mstatus
        mtvec := hf.mtvec.trans hs.mtvec
        mepc := hf.mepc.trans hs.mepc
        mcause := hf.mcause.trans hs.mcause
        mscratch := hs.mscratch
        cycles := by rw [hf.cycles, hs.cycles] }

theorem sameCsrs_direct (hram : C.Altsyncram) (hi : Unstalled i s)
    (hd : (ctl C i s).toMainDec.Direct) : SameCsrs s (posedge C i s) := by
  rw [posedge_direct hram hi hd]
  exact ⟨rfl, rfl, rfl, rfl, rfl, rfl⟩

/-- The next instruction, with a register written. -/
theorem shows_compute_iff (hs : Shows C s h) (hf : SameCsrs s s') {d : BitVec 5} {v v' : BitVec 64}
    (hpc : s'.pc = s.pc + 4) (hregs : s'.regs = writeReg d v s.regs)
    (hwords : s'.ram.words = s.ram.words) :
    Shows C s' { h.compute d v' with cycles := h.cycles + 1 } ↔ d = 0 ∨ v = v' := by
  refine (hs.next hf h.pc.next (h.regs.write d v') h.memory).trans ?_
  rw [hpc, hs.pc, hwords, hs.memory, hregs, hs.regs, ← @writeReg_eq_iff d v v' h.regs.val]
  exact ⟨fun h => h.2.1, fun h => ⟨rfl, h, rfl⟩⟩

/-- The next instruction, with nothing written. -/
theorem shows_skip_iff (hs : Shows C s h) (hf : SameCsrs s s') (hpc : s'.pc = s.pc + 4) :
    Shows C s' { h.skip with cycles := h.cycles + 1 } ↔
      s'.regs = s.regs ∧ s'.ram.words = s.ram.words := by
  refine (hs.next hf h.pc.next h.regs h.memory).trans ?_
  rw [hpc, hs.pc, ← hs.regs, ← hs.memory, ByteMem.ofWords_inj]
  exact ⟨fun h => h.2, fun h => ⟨rfl, h⟩⟩

/-- A trap the core does not take. -/
theorem not_shows_raise (hs : Shows C s h) (hf : SameCsrs s s') (hm : h.mie = true)
    (e : Exception) : ¬ Shows C s' { h.raise e with cycles := h.cycles + 1 } := by
  intro h'
  have hraise : (h.raise e).mie = false := by rw [Hart.raise, if_pos hm]
  have hmie := h'.mie
  rw [mie, hf.mstatus, ← mie, hs.mie, hm] at hmie
  exact Bool.false_ne_true (hraise.symm.trans hmie.symm)

/-- A PC that no hart has. -/
theorem not_shows_misaligned (hpc : Misaligned s'.pc) (h' : Hart) : ¬ Shows C s' h' :=
  fun hs => hpc (by rw [hs.pc]; exact h'.pc.aligned)

theorem ofWord_aligned {x : BitVec 64} (hx : ¬ Misaligned x) :
    ∃ a, CodeAddr.ofWord x = some a ∧ a.val = x := by
  have h0 : x.extractLsb' 0 2 = 0 := not_not.mp hx
  exact ⟨⟨x, h0⟩, dif_pos h0, rfl⟩

theorem ofWord_misaligned {x : BitVec 64} (hx : Misaligned x) : CodeAddr.ofWord x = none :=
  dif_neg hx

/-! ## Computational instructions -/

theorem Shows.regs_zero (hs : Shows C s h) : s.regs 0 = 0 := by
  rw [hs.regs]
  exact h.regs.zero

/-- The control word of a computational instruction. -/
theorem ctl_compute (hi : Unstalled i s) {x : Instr} (hw : instrMemText C s = x.encode)
    {d : BitVec 5} {v : BitVec 64} (hx : x.result s.pc s.regs = some (d, v)) :
    rd (instrMemText C s) = d ∧ ∃ wArith regSel aluSrc aluOp,
      (ctl C i s).toMainDec = computeRow wArith regSel aluSrc aluOp := by
  obtain ⟨hreg, hregW, himm, himmW, hlui, hauipc⟩ :=
    maindec_compute (funct3 (instrMemText C s)) (funct12 (instrMemText C s))
  rw [ctl_unstalled hi.stall]
  cases x
  case lui =>
    obtain ⟨hop, hd, -⟩ := fields_of_eq_word hw
    cases hx
    exact ⟨hd, _, _, _, _, by rw [hop]; exact hlui⟩
  case auipc =>
    obtain ⟨hop, hd, -⟩ := fields_of_eq_word hw
    cases hx
    exact ⟨hd, _, _, _, _, by rw [hop]; exact hauipc⟩
  case opImm | shiftImm =>
    obtain ⟨hop, hd, -⟩ := fields_of_eq_word hw
    cases hx
    exact ⟨hd, _, _, _, _, by rw [hop]; exact himm⟩
  case addiw | shiftImmW =>
    obtain ⟨hop, hd, -⟩ := fields_of_eq_word hw
    cases hx
    exact ⟨hd, _, _, _, _, by rw [hop]; exact himmW⟩
  case op =>
    obtain ⟨hop, hd, -⟩ := fields_of_eq_word hw
    cases hx
    exact ⟨hd, _, _, _, _, by rw [hop]; exact hreg⟩
  case opW =>
    obtain ⟨hop, hd, -⟩ := fields_of_eq_word hw
    cases hx
    exact ⟨hd, _, _, _, _, by rw [hop]; exact hregW⟩
  all_goals exact nomatch hx

/-- LUI adds its immediate to `x0`. -/
theorem computes_lui (hram : C.Altsyncram) (hi : Unstalled i s) (h0 : s.regs 0 = 0) {d : BitVec 5}
    {imm : BitVec 20} (hw : instrMemText C s = (Instr.lui d imm).encode) :
    ComputesRight C d ((imm ++ 0#12).signExtend 64) s (cycle C i s) := by
  obtain ⟨hop, hd, -⟩ := fields_of_eq_word hw
  have hrow : (ctl C i s).toMainDec = computeRow false 0b01#2 true 0 := by
    rw [ctl_unstalled hi.stall, hop]
    exact (maindec_compute _ _).2.2.2.2.1
  have himm : signext (instrMemText C s) = (imm ++ 0#12).signExtend 64 := by
    rw [signext_uImm (.inl hop), uImm, hw, Instr.encode, slice12_wordU]
  refine computes_wide hram hi hrow hd ?_
  rw [dmAddr_wide hrow (by rw [hop]; decide) (o := .add) rfl h0 himm]
  exact BitVec.zero_add _

theorem computesRight_iff (hram : C.Altsyncram) (hi : Unstalled i s) (h0 : s.regs 0 = 0)
    {x : Instr} (hw : instrMemText C s = x.encode) {d : BitVec 5} {v : BitVec 64}
    (hx : x.result s.pc s.regs = some (d, v)) :
    ComputesRight C d v s (cycle C i s) ↔ ¬ ShiftsInZeros s x := by
  cases x
  case lui =>
    cases hx
    exact iff_of_true (computes_lui hram hi h0 hw) id
  case auipc =>
    cases hx
    exact iff_of_true (compute_auipc hram hi hw) id
  case opImm =>
    cases hx
    exact iff_of_true (compute_opImm hram hi hw) id
  case shiftImm =>
    cases hx
    exact iff_of_true (compute_shiftImm hram hi hw) id
  case addiw =>
    cases hx
    exact iff_of_true (compute_addiw hram hi hw) id
  case shiftImmW =>
    cases hx
    exact compute_shiftImmW hram hi hw
  case op =>
    cases hx
    exact iff_of_true (compute_op hram hi hw) id
  case opW =>
    cases hx
    exact compute_opW hram hi hw
  all_goals exact nomatch hx

/-- **A computational instruction** shows its result unless it shifts in zeros. -/
theorem step_compute (hram : C.Altsyncram) (hi : Unstalled i s) (hs : Shows C s h) {x : Instr}
    (hw : instrMemText C s = x.encode) {d : BitVec 5} {v : BitVec 64}
    (hx : x.result h.pc.val h.regs.val = some (d, v)) :
    Shows C (posedge C i s) { h.compute d v with cycles := h.cycles + 1 } ↔
      ¬ ShiftsInZeros s x := by
  rw [← hs.pc, ← hs.regs] at hx
  obtain ⟨hd, wArith, regSel, aluSrc, aluOp, hrow⟩ := ctl_compute hi hw hx
  have hdirect := computeRow_direct wArith regSel aluSrc aluOp
  rw [← hrow] at hdirect
  have hf := sameCsrs_direct hram hi hdirect
  rw [← computesRight_iff hram hi hs.regs_zero hw hx, ← hd, computes_iff hram hi hrow]
  refine shows_compute_iff hs hf ?_ ?_ ?_
  · rw [posedge_direct hram hi hdirect, pcSrc, hrow]
    rfl
  · have hres : directResult C i s = dmAddr C i s := by
      rw [directResult, if_neg]
      rw [hrow]
      exact of_decide_eq_false rfl
    rw [posedge_direct hram hi hdirect, hres, hrow, ← regfileNext_eq_writeReg]
    rfl
  · rw [posedge_direct hram hi hdirect]

/-! ## Transfers -/

/-- A transfer that is made. -/
theorem shows_jump_iff (hs : Shows C s h) (hf : SameCsrs s s') {target : BitVec 64}
    (link : Option (BitVec 5)) (hpc : s'.pc = target) (hwords : s'.ram.words = s.ram.words)
    (hregs : s'.regs = match link with
      | some rd => writeReg rd (s.pc + 4) s.regs
      | none => s.regs) :
    Shows C s' { h.jump target link with cycles := h.cycles + 1 } ↔ ¬ Misaligned target := by
  constructor
  · intro h' hmis
    exact not_shows_misaligned (hpc ▸ hmis) _ h'
  · intro hal
    obtain ⟨a, ha, hval⟩ := ofWord_aligned hal
    unfold Hart.jump
    rw [ha]
    refine (hs.next hf a _ h.memory).mpr ⟨hpc.trans hval.symm, ?_, ?_⟩
    · rw [hregs, hs.pc, hs.regs]
      cases link <;> rfl
    · rw [hwords, hs.memory]

/-- What a transfer leaves alone. -/
theorem transfer_frame (hram : C.Altsyncram) (hi : Unstalled i s) {aluSrc regWrite : Bool}
    {code : BitVec 3} (hrow : (ctl C i s).toMainDec = transferRow aluSrc regWrite code) :
    SameCsrs s (posedge C i s) ∧ (posedge C i s).ram.words = s.ram.words := by
  have hd := transferRow_direct aluSrc regWrite code
  rw [← hrow] at hd
  exact ⟨sameCsrs_direct hram hi hd, by rw [posedge_direct hram hi hd]⟩

theorem step_jal (hram : C.Altsyncram) (hi : Unstalled i s) (hs : Shows C s h) {d : BitVec 5}
    {imm : BitVec 20} (hw : instrMemText C s = (Instr.jal d imm).encode) :
    Shows C (posedge C i s) { h.exec (.jal d imm) with cycles := h.cycles + 1 } ↔
      ¬ Misaligned (s.pc + jalOffset imm) := by
  obtain ⟨hop, -⟩ := fields_of_eq_word hw
  have hrow : (ctl C i s).toMainDec = transferRow false true 0b111#3 := by
    rw [ctl_unstalled hi.stall, hop, maindec_jal]
  obtain ⟨hf, hwords⟩ := transfer_frame hram hi hrow
  have hright := transfer_jal hi hw
  rw [cycle_eq_posedge hi.reset] at hright
  rw [hs.pc]
  refine shows_jump_iff hs hf (some d) ?_ hwords hright.regs
  rw [← hs.pc]
  exact (Option.some.inj hright.pc).symm

theorem step_jalr (hram : C.Altsyncram) (hi : Unstalled i s) (hs : Shows C s h) {d a : BitVec 5}
    {imm : BitVec 12} (hw : instrMemText C s = (Instr.jalr d a imm).encode) :
    Shows C (posedge C i s) { h.exec (.jalr d a imm) with cycles := h.cycles + 1 } ↔
      ¬ Misaligned ((s.regs a + imm.signExtend 64) &&& ~~~1#64) := by
  obtain ⟨hop, -⟩ := fields_of_eq_word hw
  have hrow : (ctl C i s).toMainDec = transferRow true true 0b111#3 := by
    rw [ctl_unstalled hi.stall, hop, maindec_jalr]
  obtain ⟨hf, hwords⟩ := transfer_frame hram hi hrow
  have hright := transfer_jalr hi hw
  rw [cycle_eq_posedge hi.reset] at hright
  rw [hs.regs]
  refine shows_jump_iff hs hf (some d) ?_ hwords hright.regs
  rw [← hs.regs]
  exact (Option.some.inj hright.pc).symm

/-- Where a branch takes the core. -/
theorem branch_pc (hram : C.Altsyncram) (hi : Unstalled i s) {o : BranchOp} {a b : BitVec 5}
    {immHigh : BitVec 7} {immLow : BitVec 5}
    (hw : instrMemText C s = (Instr.branch o a b immHigh immLow).encode) :
    SameCsrs s (posedge C i s) ∧ (posedge C i s).ram.words = s.ram.words ∧
      (posedge C i s).regs = s.regs ∧
      (posedge C i s).pc = if coreTaken o (s.regs a) (s.regs b) then
        s.pc + branchOffset immHigh immLow else s.pc + 4 := by
  obtain ⟨hop, -, hf3, ha, hb, -⟩ := fields_of_eq_word hw
  rw [BitVec.extractLsb'_append_eq_right] at hb
  have hrow : (ctl C i s).toMainDec = transferRow false false o.code := by
    rw [ctl_unstalled hi.stall, hop, hf3, maindec_branchOp]
  have htarget : (exec C i s).pcBranch = s.pc + branchOffset immHigh immLow := by
    rw [pcBranch_relative hrow (by rw [hop]; decide), signext_branch hop, hw, bImm_branch]
  obtain ⟨hf, hwords⟩ := transfer_frame hram hi hrow
  obtain ⟨hpc, hregs⟩ := posedge_transfer hi hrow
  rw [htarget, pcSrc_branch hrow, ha, hb] at hpc
  exact ⟨hf, hwords, hregs, hpc⟩

/-- **A branch** goes where the hart goes, short of an overflow or a misaligned target. -/
theorem step_branch (hram : C.Altsyncram) (hi : Unstalled i s) (hs : Shows C s h) {o : BranchOp}
    {a b : BitVec 5} {immHigh : BitVec 7} {immLow : BitVec 5}
    (hw : instrMemText C s = (Instr.branch o a b immHigh immLow).encode) :
    Shows C (posedge C i s) { h.exec (.branch o a b immHigh immLow) with
        cycles := h.cycles + 1 } ↔
      ¬ InstrDeviates C s (.branch o a b immHigh immLow) := by
  obtain ⟨hf, hwords, hregs, hpc⟩ := branch_pc hram hi hw
  have hnext : ¬ Misaligned (s.pc + 4) := by
    rw [hs.pc]
    exact not_not_intro h.pc.next.aligned
  have hexec : h.exec (.branch o a b immHigh immLow) =
      h.jump (if o.taken (s.regs a) (s.regs b) then s.pc + branchOffset immHigh immLow
        else s.pc + 4) none := by
    rw [hs.pc, hs.regs]
    rfl
  rw [hexec]
  by_cases hmis : Misaligned (s.pc + branchOffset immHigh immLow)
  · -- the core traps on no target, the hart on this one
    rw [InstrDeviates, if_pos hmis]
    cases hcore : coreTaken o (s.regs a) (s.regs b) with
    | true =>
        rw [hcore, if_pos rfl] at hpc
        exact iff_of_false (not_shows_misaligned (hpc ▸ hmis) _) (not_not_intro (.inl rfl))
    | false =>
        rw [hcore, if_neg Bool.false_ne_true] at hpc
        rw [or_iff_right Bool.false_ne_true]
        cases htaken : o.taken (s.regs a) (s.regs b) with
        | false =>
            rw [if_neg Bool.false_ne_true]
            exact iff_of_true ((shows_jump_iff hs hf none hpc hwords hregs).mpr hnext)
              fun h => Bool.false_ne_true h.1
        | true =>
            have hraise : h.jump (s.pc + branchOffset immHigh immLow) none = h.raise .fetch := by
              unfold Hart.jump
              rw [ofWord_misaligned hmis]
            rw [if_pos rfl, and_iff_right rfl, hraise, hs.mie]
            cases hm : h.mie with
            | true => exact iff_of_false (not_shows_raise hs hf hm _) (not_not_intro rfl)
            | false =>
                have hskip : h.raise .fetch = h.skip := by
                  rw [Hart.raise, hm, if_neg Bool.false_ne_true]
                rw [hskip]
                exact iff_of_true ((shows_skip_iff hs hf hpc).mpr ⟨hregs, hwords⟩)
                  Bool.false_ne_true
  · rw [InstrDeviates, if_neg hmis, ← transfer_branch hi hw, cycle_eq_posedge hi.reset]
    have htarget : ¬ Misaligned (if o.taken (s.regs a) (s.regs b) then
        s.pc + branchOffset immHigh immLow else s.pc + 4) := by
      split_ifs
      · exact hmis
      · exact hnext
    constructor
    · intro h'
      refine ⟨congrArg some ?_, hregs⟩
      obtain ⟨t, ht, hval⟩ := ofWord_aligned htarget
      have hpc' := h'.pc
      unfold Hart.jump at hpc'
      rw [ht] at hpc'
      exact hval.symm.trans hpc'.symm
    · intro hright
      refine (shows_jump_iff hs hf none ?_ hwords hregs).mpr htarget
      exact (Option.some.inj hright.pc).symm

/-! ## Traps -/

/-- An instruction that raises an exception goes nowhere and writes no CSR. -/
theorem raises_frame (hi : Unstalled i s) {t : Trap} (ht : Raises s (instrMemText C s) t) :
    (ctl C i s).branch = 0 ∧ (ctl C i s).trapReturn = false ∧
      (ctl C i s).csrWriteEnable = false := by
  have hdecoded : ∀ t : Trap, Raises s (instrMemText C s) t → t.decoded ≠ 0 →
      (ctl C i s).branch = 0 ∧ (ctl C i s).trapReturn = false ∧
        (ctl C i s).csrWriteEnable = false := by
    intro t ht hne
    have hinert : (ctl C i s).toMainDec.Inert := by
      rw [ctl_unstalled hi.stall]
      refine maindec_except_inert ?_
      rw [← ctl_unstalled hi.stall, (exceptSignal_raises hi.stall ht).1]
      exact hne
    exact ⟨hinert.branch, hinert.trapReturn, hinert.csrWriteEnable⟩
  cases t with
  | illegal | ecall | ebreak => exact hdecoded _ ht (by decide)
  | load =>
      rw [ctl_load hi.stall ht.1]
      exact ⟨rfl, rfl, rfl⟩
  | store =>
      rw [ctl_store hi.stall ht.1]
      exact ⟨rfl, rfl, rfl⟩

/-- The CSRs and the counter after an instruction that raises an exception. -/
theorem raises_rest (hi : Unstalled i s) {t : Trap} (ht : Raises s (instrMemText C s) t) :
    (posedge C i s).mtvec = s.mtvec ∧ (posedge C i s).cycles = s.cycles + 1 := by
  obtain ⟨-, -, hcsr⟩ := raises_frame hi ht
  constructor
  · simp only [posedge, ExceptController.mtvecNext, csrWriteEnable, hcsr, hi.reset, flopre,
      flopreInit, Bool.and_false, Bool.false_eq_true, if_false]
  · simp only [posedge, hi.reset, hi.stall, flopre, flopreInit, Bool.not_false, Bool.false_eq_true,
      if_false, if_true]

/--
**An exception.** The core shows the trap of the hart, or the instruction passed over,
exactly if nothing leaks and the cause it records is the right one.
-/
theorem step_raise (hram : C.Altsyncram) (hi : Unstalled i s) (hs : Shows C s h) {t : Trap}
    (ht : Raises s (instrMemText C s) t) (e : Exception) :
    Shows C (posedge C i s) { h.raise e with cycles := h.cycles + 1 } ↔
      NoEffect C i s ∧ (mie s = true → t.recorded = e.code h.mode) := by
  obtain ⟨hbranch, hret, hcsr⟩ := raises_frame hi ht
  obtain ⟨hmtvec, hcycles⟩ := raises_rest hi ht
  rw [← noEffect_iff hram hi.stall]
  cases hm : mie s with
  | true =>
      have htrap : trapTrigger C i s ≠ 0 := (trapTrigger_iff_raises hi.stall hm).mpr ⟨t, ht⟩
      obtain ⟨hmode, hmstatus, hmepc⟩ := posedge_trap hi.reset htrap
      have hpc := posedge_pc (C := C) hi
      rw [if_pos htrap, hs.vector] at hpc
      have hstatus : (posedge C i s).mstatus = statusWord h.mode.bits true false := by
        have hsaved := mstatusMerge_statusWord h.mpp.bits h.mode.bits h.mpie h.mie true false
        rw [hmstatus, hs.mode, show s.mstatus.getLsbD 3 = true from hm, hs.mstatus]
        exact hsaved
      rw [forall_prop_of_true rfl]
      unfold Hart.raise
      rw [← hs.mie, hm, if_pos rfl]
      constructor
      · intro h'
        refine ⟨⟨h'.regs.trans hs.regs.symm, ?_⟩, ?_⟩
        · exact ByteMem.ofWords_inj.mp (h'.memory.trans hs.memory.symm)
        · rw [← posedge_mcause hi hm ht]
          exact h'.mcause
      · intro hright
        obtain ⟨⟨hregs, hwords⟩, hcause⟩ := hright
        exact
          { pc := hpc
            regs := hregs.trans hs.regs
            memory := (congrArg ByteMem.ofWords hwords).trans hs.memory
            mode := hmode
            mstatus := hstatus
            mtvec := hmtvec.trans hs.mtvec
            mepc := hmepc.trans hs.pc
            mcause := (posedge_mcause hi hm ht).trans hcause
            mscratch := hs.mscratch
            cycles := by rw [hcycles, hs.cycles] }
  | false =>
      have htrap : trapTrigger C i s = 0 := by rw [trapTrigger_eq, hm, if_neg Bool.false_ne_true]
      obtain ⟨hmode, hmcause, hmepc, hmstatus⟩ := posedge_noTrap hi.reset htrap hret
      have hpc := posedge_pc (C := C) hi
      rw [htrap, hret, if_neg (fun h => h rfl), if_neg Bool.false_ne_true, pcSrc, hbranch] at hpc
      rw [mstatusCSREnable, csrWriteEnable, hcsr, Bool.and_false,
        if_neg Bool.false_ne_true] at hmstatus
      have hskip : h.raise e = h.skip := by
        rw [Hart.raise, ← hs.mie, hm, if_neg Bool.false_ne_true]
      rw [hskip, and_iff_left fun hf => absurd hf Bool.false_ne_true]
      exact shows_skip_iff hs ⟨hmode, hmstatus, hmtvec, hmepc, hmcause, hcycles⟩ hpc

/-! ## Loads and stores -/

theorem loadBytes (o : LoadOp) : accessBytes (loadSize o.funct3) = o.bytes := by
  cases o <;> rfl

theorem storeBytes (o : StoreOp) : accessBytes (storeSize o.funct3) = o.bytes := by
  cases o <;> rfl

theorem loadResult_value (o : LoadOp) (m : ByteMem 15) (addr : BitVec 15) :
    loadResult o.funct3 m addr = o.value m addr := by
  cases o <;> rfl

/-- The fields of a load. -/
theorem load_fields {o : LoadOp} {d a : BitVec 5} {imm : BitVec 12}
    (hw : instrMemText C s = (Instr.load o d a imm).encode) :
    opcode (instrMemText C s) = 0b0000011#7 ∧ rd (instrMemText C s) = d ∧
      funct3 (instrMemText C s) = o.funct3 ∧
      loadAddr s (instrMemText C s) = s.regs a + imm.signExtend 64 := by
  obtain ⟨hop, hd, hf3, ha, -, hf12⟩ := fields_of_eq_word hw
  refine ⟨hop, hd, hf3, ?_⟩
  have himm : iImm (instrMemText C s) = imm.signExtend 64 := congrArg (BitVec.signExtend 64) hf12
  rw [loadAddr, ha, himm]

/-- The fields of a store. -/
theorem store_fields {o : StoreOp} {a b : BitVec 5} {immHigh : BitVec 7} {immLow : BitVec 5}
    (hw : instrMemText C s = (Instr.store o a b immHigh immLow).encode) :
    opcode (instrMemText C s) = 0b0100011#7 ∧ rs2 (instrMemText C s) = b ∧
      funct3 (instrMemText C s) = o.funct3 ∧
      storeAddr s (instrMemText C s) = s.regs a + (immHigh ++ immLow).signExtend 64 := by
  obtain ⟨hop, hlow, hf3, ha, hb, hf12⟩ := fields_of_eq_word hw
  rw [BitVec.extractLsb'_append_eq_right] at hb
  refine ⟨hop, hb, hf3, ?_⟩
  have hhigh : (instrMemText C s).extractLsb' 25 7 = immHigh := by
    rw [hw, Instr.encode, slice25_word]
    exact funct7_append _ _
  have himm : sImm (instrMemText C s) = (immHigh ++ immLow).signExtend 64 := by
    rw [sImm, hhigh, show (instrMemText C s).extractLsb' 7 5 = immLow from hlow]
  rw [storeAddr, ha, himm]

/-- **A load** shows its value unless it is shown another. -/
theorem step_load (hram : C.Altsyncram) (hi : Unstalled i s) (hs : Shows C s h) {o : LoadOp}
    {d a : BitVec 5} {imm : BitVec 12} (hw : instrMemText C s = (Instr.load o d a imm).encode) :
    Shows C (posedge C i s) { h.exec (.load o d a imm) with cycles := h.cycles + 1 } ↔
      ¬ InstrDeviates C s (.load o d a imm) := by
  obtain ⟨hop, hd, hf3, haddr⟩ := load_fields hw
  have hmask : loadMask C s s.ram.latch =
      shownValue o (s.regs a + imm.signExtend 64) s.ram.latch := by
    rw [loadMask, hf3, haddr]
    rfl
  have hexec : h.exec (.load o d a imm) = h.load o d (s.regs a + imm.signExtend 64) := by
    rw [hs.regs]
    rfl
  rw [hexec, InstrDeviates, LoadDeviates, not_and_not_right]
  by_cases hfit : Fits (s.regs a + imm.signExtend 64) o.bytes
  · have hc : crosses C i s = false := by
      rw [crosses_load hi.stall hop, haddr, hf3, loadBytes]
      exact decide_eq_false (Nat.not_lt.mpr hfit)
    have hpos := posedge_load (C := C) hi hop hc
    have hf : SameCsrs s (posedge C i s) := by
      rw [hpos]
      exact ⟨rfl, rfl, rfl, rfl, rfl, rfl⟩
    have hregs : (posedge C i s).regs =
        writeReg d (shownValue o (s.regs a + imm.signExtend 64) s.ram.latch) s.regs := by
      rw [hpos, hd, loadValue_eq hram, hmask, ← regfileNext_eq_writeReg]
    have hwords : (posedge C i s).ram.words = s.ram.words :=
      posedge_not_store_words hram hi.stall (by rw [hop]; decide)
    unfold Hart.load
    rw [if_pos hfit, if_pos hfit, hs.memory,
      shows_compute_iff hs hf (by rw [hpos]) hregs hwords, ne_eq, or_iff_not_imp_left]
  · have ht : Raises s (instrMemText C s) .load := by
      refine ⟨hop, ?_⟩
      rw [haddr, hf3, loadBytes]
      exact Nat.lt_of_not_le hfit
    have hcode : mie s = true → Trap.load.recorded = Exception.load.code h.mode := fun _ => rfl
    unfold Hart.load
    rw [if_neg hfit, if_neg hfit, step_raise hram hi hs ht, and_iff_left hcode, ← hmask]
    constructor
    · intro hno hne
      have hl := hno.load hop
      rw [hd] at hl
      exact hl.resolve_left hne
    · intro hl
      refine ⟨fun _ => ?_, fun hstore => ?_, fun hne => absurd hop hne⟩
      · rw [hd, or_iff_not_imp_left]
        exact hl
      · rw [hop] at hstore
        exact absurd hstore (by decide)

/-- The store of the program is the access of the cycle. -/
theorem access_store (hi : Unstalled i s) {o : StoreOp} {a b : BitVec 5} {immHigh : BitVec 7}
    {immLow : BitVec 5} (hw : instrMemText C s = (Instr.store o a b immHigh immLow).encode) :
    access C i s = some
      { addr := (s.regs a + (immHigh ++ immLow).signExtend 64).setWidth 15
        bytes := o.bytes
        data := s.regs b } := by
  obtain ⟨hop, hb, hf3, haddr⟩ := store_fields hw
  obtain ⟨-, -, -, hwe, -⟩ := stall_eq_false_iff.mp hi.stall
  rw [access, hwe, if_neg Bool.false_ne_true, if_pos ⟨hi.stall, hop⟩, haddr, hf3, hb, storeBytes]

/-- **A store** shows in memory, unless it traps and leaks. -/
theorem step_store (hram : C.Altsyncram) (hi : Unstalled i s) (hs : Shows C s h) {o : StoreOp}
    {a b : BitVec 5} {immHigh : BitVec 7} {immLow : BitVec 5}
    (hw : instrMemText C s = (Instr.store o a b immHigh immLow).encode) :
    Shows C (posedge C i s) { h.exec (.store o a b immHigh immLow) with
        cycles := h.cycles + 1 } ↔
      ¬ InstrDeviates C s (.store o a b immHigh immLow) := by
  obtain ⟨hop, hb, hf3, haddr⟩ := store_fields hw
  have hexec : h.exec (.store o a b immHigh immLow) =
      h.store o (s.regs a + (immHigh ++ immLow).signExtend 64) (s.regs b) := by
    rw [hs.regs]
    rfl
  rw [hexec, InstrDeviates, StoreDeviates]
  by_cases hfit : Fits (s.regs a + (immHigh ++ immLow).signExtend 64) o.bytes
  · have hrow := ctl_store (C := C) hi.stall hop
    have hc : crosses C i s = false := by
      rw [crosses_store hi.stall hop, haddr, hf3, storeBytes]
      exact decide_eq_false (Nat.not_lt.mpr hfit)
    have hexc : exceptSignal C i s = 0 := by
      have hread : (ctl C i s).memRead.getLsbD 0 = false := by
        rw [hrow]
        exact BitVec.getLsbD_zero
      rw [exceptSignal_eq, exceptBits_eq_zero, hc, hread, hrow]
      exact ⟨rfl, rfl, rfl⟩
    have hcsr : csrWriteEnable C i s = false := by rw [csrWriteEnable, hrow]; rfl
    have hsrc : pcSrc C i s = false := by rw [pcSrc, hrow]; rfl
    have hwrite : (ctl C i s).regWrite = false := by rw [hrow]; rfl
    have hpos := posedge_noExcept (C := C) hi hexc (by rw [hrow]; rfl)
    simp only [mstatusCSREnable, hcsr, hsrc, hwrite, ExceptController.mtvecNext, flopre, flopreInit,
      Bool.and_false, Bool.false_eq_true, if_false] at hpos
    have hf : SameCsrs s (posedge C i s) := by
      rw [hpos]
      exact ⟨rfl, rfl, rfl, rfl, rfl, rfl⟩
    have hacc := access_store hi hw
    have hmemory := posedge_access (C := C) (i := i) (s := s) hram (by
      intro x hx
      rw [hacc] at hx
      obtain rfl := Option.some.inj hx
      rw [setWidth_lane]
      exact hfit)
    rw [hacc] at hmemory
    unfold Hart.store
    rw [if_pos hfit]
    refine iff_of_true ((hs.next hf h.pc.next h.regs _).mpr ⟨?_, ?_, ?_⟩)
      fun hdev => hdev.1 hfit
    · rw [hpos, hs.pc]
      rfl
    · rw [hpos, ← hs.regs]
      rfl
    · rw [hmemory, hs.memory]
      rfl
  · have hspill : 8 < ((s.regs a + (immHigh ++ immLow).signExtend 64).extractLsb' 0 3).toNat +
        o.bytes := Nat.lt_of_not_le hfit
    have ht : Raises s (instrMemText C s) .store := by
      refine ⟨hop, ?_⟩
      rw [haddr, hf3, storeBytes]
      exact hspill
    have hcode : mie s = true → Trap.store.recorded = Exception.store.code h.mode := fun _ => rfl
    unfold Hart.store
    rw [if_neg hfit, step_raise hram hi hs ht, and_iff_left hcode, and_iff_right hfit]
    constructor
    · intro hno hleak
      obtain ⟨k, hk, hge, hne⟩ := hleak
      have heq := hno.store hop k hk
      rw [haddr, hf3, storeBytes, hb] at heq
      exact hne (heq hge (Nat.lt_trans hk hspill))
    · intro hno
      refine ⟨fun hload => ?_, fun _ k hk hge _ => ?_, fun _ hwrite => ?_⟩
      · rw [hop] at hload
        exact absurd hload (by decide)
      · rw [haddr, hb] at *
        by_contra hne
        exact hno ⟨k, hk, hge, hne⟩
      · rw [ctl_store hi.stall hop] at hwrite
        exact absurd hwrite Bool.false_ne_true

end Core

end PassiFlo
