import PassiFlo.Proof.HartStep

/-!
# CSR instructions of the hart

What a CSR instruction reads is right at every address the hart has. The deviations are on
the other side: CSRs that are not there or read-only are accessed without a trap, `mepc`,
`mcause` and `mscratch` do not take what is written, and the two that do are given an
immediate that is sign extended and a mode that is not checked.
-/

namespace PassiFlo

open Isa Lanes

/-! ## Masked writes -/

theorem maskedWrite_and_mask (mask old x : BitVec 64) :
    maskedWrite mask old x &&& mask = x &&& mask := by
  refine BitVec.eq_of_getLsbD_eq ?_
  intro k hk
  rw [BitVec.getLsbD_and, BitVec.getLsbD_and, maskedWrite_getLsbD _ _ _ hk]
  cases mask.getLsbD k <;> simp

/-- A masked write only sees what is under the mask. -/
theorem maskedWrite_inj {mask old x y : BitVec 64} :
    maskedWrite mask old x = maskedWrite mask old y ↔ x &&& mask = y &&& mask := by
  constructor
  · intro h
    rw [← maskedWrite_and_mask mask old x, h, maskedWrite_and_mask]
  · intro h
    rw [maskedWrite, maskedWrite, h]

theorem maskedWrite_self (mask old : BitVec 64) : maskedWrite mask old old = old := by
  refine BitVec.eq_of_getLsbD_eq ?_
  intro k hk
  rw [maskedWrite_getLsbD _ _ _ hk, ite_self]

/-- The bits of `mtvec` that can be written are all there are. -/
theorem maskedWrite_vector (v : TrapVector) (x : BitVec 64) :
    maskedWrite ExceptController.mtvecMask v.val x = x &&& vectorMask := by
  have hmask : ExceptController.mtvecMask = vectorMask := by decide
  have hzero : v.val &&& ~~~vectorMask = 0#64 := v.implemented
  rw [maskedWrite, hmask, hzero, BitVec.zero_or]

namespace Isa

theorem Privilege.ofBits_eq_some {b : BitVec 2} {p : Privilege} :
    Privilege.ofBits b = some p ↔ p.bits = b := by
  revert b
  cases p <;> decide

/-- A set or clear with a zero field computes the old value. -/
theorem eval_of_not_writes {regs : BitVec 5 → BitVec 64} (h0 : regs 0 = 0) {o : CsrOp}
    {r : BitVec 5} (hwr : o.writes r = false) (old : BitVec 64) :
    o.eval (seenOperand regs r o) old = old := by
  have hr : o ≠ .csrrw → o ≠ .csrrwi → r = 0 := by
    intro h1 h2
    cases o
    case csrrw => exact absurd rfl h1
    case csrrwi => exact absurd rfl h2
    all_goals exact not_not.mp fun hne => Bool.false_ne_true (hwr.symm.trans (bne_iff_ne.mpr hne))
  have hzero : r = 0 → seenOperand regs r o = 0#64 := by
    intro hr
    subst hr
    rw [seenOperand, h0, show (0 : BitVec 5).signExtend 64 = 0#64 by decide]
    exact ite_self _
  cases o
  case csrrw | csrrwi => exact absurd hwr.symm Bool.false_ne_true
  case csrrs | csrrsi =>
    rw [hzero (hr (by decide) (by decide))]
    exact BitVec.or_zero
  case csrrc | csrrci =>
    rw [hzero (hr (by decide) (by decide)), CsrOp.eval, BitVec.not_zero, BitVec.and_allOnes]

/-- The register forms see the operand they should. -/
theorem seenOperand_of_register {regs : BitVec 5 → BitVec 64} {o : CsrOp} {r : BitVec 5}
    (h : o.immediate = false) : seenOperand regs r o = o.operand regs r := by
  rw [seenOperand, CsrOp.operand, h, if_neg Bool.false_ne_true, if_neg Bool.false_ne_true]

end Isa

namespace Core

variable {C : Chip} {i : Inputs} {s : State} {h : Hart} {o : CsrOp} {d r : BitVec 5}
  {a : BitVec 12}

/-! ## Frame -/

/-- Everything but `mstatus` and `mtvec` after a CSR instruction. -/
structure CsrFrame (C : Chip) (d : BitVec 5) (a : BitVec 12) (s s' : State) : Prop where
  pc : s'.pc = s.pc + 4
  regs : s'.regs = writeReg d (csrRead C s a) s.regs
  words : s'.ram.words = s.ram.words
  mode : s'.mode = s.mode
  mepc : s'.mepc = s.mepc
  mcause : s'.mcause = s.mcause
  cycles : s'.cycles = s.cycles + 1

theorem csrFrame (hram : C.Altsyncram) (hi : Unstalled i s)
    (hw : instrMemText C s = (Instr.csr o d r a).encode) : CsrFrame C d a s (posedge C i s) := by
  have hwords : (posedge C i s).ram.words = s.ram.words :=
    posedge_not_store_words hram hi.stall (by rw [hw, opcode_csr]; decide)
  refine ⟨?_, ?_, hwords, ?_, ?_, ?_, ?_⟩
  all_goals
    rw [posedge_csr hi hw]
    try rfl

/-- The value the core works out. -/
theorem csrIn_computed (hi : Unstalled i s) (hw : instrMemText C s = (Instr.csr o d r a).encode) :
    csrIn C i s = o.eval (seenOperand s.regs r o) (csrRead C s a) := csrIn_csr hi.stall hw

theorem csr_mstatus (hi : Unstalled i s) (hw : instrMemText C s = (Instr.csr o d r a).encode) :
    (posedge C i s).mstatus = if a = 0x300#12 then
      maskedWrite mstatusMask s.mstatus (o.eval (seenOperand s.regs r o) (csrRead C s a))
      else s.mstatus := by
  rw [posedge_csr hi hw, csrIn_computed hi hw]

theorem csr_mtvec (hi : Unstalled i s) (hw : instrMemText C s = (Instr.csr o d r a).encode) :
    (posedge C i s).mtvec = if a = 0x305#12 then maskedWrite ExceptController.mtvecMask s.mtvec
      (o.eval (seenOperand s.regs r o) (csrRead C s a)) else s.mtvec := by
  rw [posedge_csr hi hw, csrIn_computed hi hw]

/-- A CSR instruction that leaves both CSRs as they are. -/
theorem CsrFrame.sameCsrs {s' : State} (hf : CsrFrame C d a s s')
    (hmstatus : s'.mstatus = s.mstatus) (hmtvec : s'.mtvec = s.mtvec) : SameCsrs s s' :=
  ⟨hf.mode, hmstatus, hmtvec, hf.mepc, hf.mcause, hf.cycles⟩

/-- What is left to show of a CSR instruction are the CSRs. -/
theorem Shows.next_csr {s' : State} (hs : Shows C s h) (hf : CsrFrame C d a s s') {mpp : Privilege}
    {mpie mie : Bool} {mtvec : TrapVector} {mepc : CodeAddr} {mcause mscratch : BitVec 64} :
    Shows C s' { h.compute d (csrRead C s a) with
        mpp := mpp, mpie := mpie, mie := mie, mtvec := mtvec, mepc := mepc, mcause := mcause
        mscratch := mscratch, cycles := h.cycles + 1 } ↔
      s'.mstatus = statusWord mpp.bits mpie mie ∧ s'.mtvec = mtvec.val ∧ s.mepc = mepc.val ∧
        s.mcause = mcause ∧ C.undriven = mscratch := by
  constructor
  · exact fun h' => ⟨h'.mstatus, h'.mtvec, hf.mepc.symm.trans h'.mepc,
      hf.mcause.symm.trans h'.mcause, h'.mscratch⟩
  · intro hcsrs
    obtain ⟨hmstatus, hmtvec, hmepc, hmcause, hmscratch⟩ := hcsrs
    exact
      { pc := by rw [hf.pc, hs.pc]; rfl
        regs := by rw [hf.regs, hs.regs]; rfl
        memory := (congrArg ByteMem.ofWords hf.words).trans hs.memory
        mode := hf.mode.trans hs.mode
        mstatus := hmstatus
        mtvec := hmtvec
        mepc := hf.mepc.trans hmepc
        mcause := hf.mcause.trans hmcause
        mscratch := hmscratch
        cycles := by rw [hf.cycles, hs.cycles] }

/-! ## Accesses that should be illegal -/

theorem step_csr_illegal (hram : C.Altsyncram) (hi : Unstalled i s) (hs : Shows C s h)
    (hw : instrMemText C s = (Instr.csr o d r a).encode) (h300 : a ≠ 0x300#12)
    (h305 : a ≠ 0x305#12) :
    Shows C (posedge C i s) { h.raise .illegal with cycles := h.cycles + 1 } ↔
      ¬ RunsIllegal C s d a := by
  have hframe := csrFrame hram hi hw
  have hf : SameCsrs s (posedge C i s) := hframe.sameCsrs
    (by rw [csr_mstatus hi hw, if_neg h300]) (by rw [csr_mtvec hi hw, if_neg h305])
  rw [RunsIllegal, hs.mie]
  cases hm : h.mie with
  | true => exact iff_of_false (not_shows_raise hs hf hm _) (not_not_intro (.inl rfl))
  | false =>
      have hskip : h.raise .illegal = h.skip := by rw [Hart.raise, hm, if_neg Bool.false_ne_true]
      rw [hskip, shows_skip_iff hs hf hframe.pc, and_iff_left hframe.words, hframe.regs,
        ← regfileNext_eq_writeReg, regfileNext_eq_self_iff, or_iff_right Bool.false_ne_true]
      tauto

/-! ## Accesses that write -/

/-- An immediate form never asks for an unsupported mode. -/
theorem ofBits_asked (hs : Shows C s h) (himm : o.immediate = true) :
    Privilege.ofBits ((asked o r .mstatus s).extractLsb' 11 2) ≠ none := by
  rw [asked_slice himm (by decide) (by decide)]
  split_ifs
  · decide
  · rw [show RmwCsr.mstatus.value s = s.mstatus from rfl, hs.mpp, Privilege.ofBits_bits]
    exact Option.some_ne_none _

/-- The write of `mstatus`. -/
theorem mstatus_write_iff (hs : Shows C s h) :
    maskedWrite mstatusMask s.mstatus (computed o r .mstatus s) =
        statusWord ((Privilege.ofBits ((asked o r .mstatus s).extractLsb' 11 2)).getD h.mpp).bits
          ((asked o r .mstatus s).getLsbD 7) ((asked o r .mstatus s).getLsbD 3) ↔
      ¬ LosesWrite C s (computed o r .mstatus s) (asked o r .mstatus s) .mstatus := by
  have hwrite : ∀ x, maskedWrite mstatusMask s.mstatus x =
      statusWord (x.extractLsb' 11 2) (x.getLsbD 7) (x.getLsbD 3) := by
    intro x
    rw [hs.mstatus]
    exact maskedWrite_statusWord _ _ _ x
  rw [LosesWrite, not_or, not_not]
  cases hmpp : Privilege.ofBits ((asked o r .mstatus s).extractLsb' 11 2) with
  | some p =>
      rw [and_iff_left (by exact Option.some_ne_none p), ← @maskedWrite_inj _ s.mstatus,
        Option.getD_some, Privilege.ofBits_eq_some.mp hmpp, hwrite (asked o r .mstatus s)]
  | none =>
      refine iff_of_false (fun heq => ?_) fun hn => hn.2 rfl
      have hreg : o.immediate = false :=
        Bool.eq_false_iff.mpr fun himm => ofBits_asked hs himm hmpp
      have hsame : computed o r .mstatus s = asked o r .mstatus s := by
        rw [computed, asked, seenOperand_of_register hreg]
      rw [hwrite, hsame, Option.getD_none, statusWord_inj] at heq
      rw [heq.1, Privilege.ofBits_bits] at hmpp
      exact Option.some_ne_none _ hmpp

/-- **A CSR write**, for each of the CSRs that can be written. -/
theorem step_csr_write (hram : C.Altsyncram) (hi : Unstalled i s) (hs : Shows C s h) {c : Csr}
    (hw : instrMemText C s = (Instr.csr o d r c.addr).encode) (hro : c.readOnly = false) :
    Shows C (posedge C i s)
        { (h.compute d (h.csr c)).setCsr (o.eval (o.operand h.regs.val r) (h.csr c)) c with
          cycles := h.cycles + 1 } ↔
      ¬ LosesWrite C s (o.eval (seenOperand s.regs r o) (csrRead C s c.addr))
        (o.eval (o.operand s.regs r) (csrRead C s c.addr)) c := by
  have hf := csrFrame hram hi hw
  have hmstatus := csr_mstatus hi hw
  have hmtvec := csr_mtvec hi hw
  rw [← hs.csr, ← hs.regs]
  cases c with
  | mvendorid | marchid | mimpid | mhartid | cycle => exact absurd hro (by decide)
  | misa =>
      refine iff_of_true ((hs.next_csr hf).mpr ?_) id
      exact ⟨hmstatus.trans hs.mstatus, hmtvec.trans hs.mtvec, hs.mepc, hs.mcause, hs.mscratch⟩
  | mstatus =>
      refine ((hs.next_csr hf).trans ?_).trans (mstatus_write_iff hs)
      rw [hmstatus, if_pos (show Csr.mstatus.addr = 0x300#12 from rfl)]
      exact and_iff_left ⟨hmtvec.trans hs.mtvec, hs.mepc, hs.mcause, hs.mscratch⟩
  | mtvec =>
      rw [LosesWrite, not_not]
      refine (hs.next_csr hf).trans ?_
      rw [hmtvec, if_pos (show Csr.mtvec.addr = 0x305#12 from rfl), hs.mtvec, maskedWrite_vector]
      exact ⟨fun h => h.2.1, fun h => ⟨hmstatus.trans hs.mstatus, h, hs.mepc, hs.mcause,
        hs.mscratch⟩⟩
  | mepc =>
      rw [LosesWrite, not_not]
      refine (hs.next_csr hf).trans ?_
      exact ⟨fun h => h.2.2.1.symm, fun h => ⟨hmstatus.trans hs.mstatus, hmtvec.trans hs.mtvec,
        h.symm, hs.mcause, hs.mscratch⟩⟩
  | mcause =>
      rw [LosesWrite, not_not]
      refine (hs.next_csr hf).trans ?_
      exact ⟨fun h => h.2.2.2.1.symm, fun h => ⟨hmstatus.trans hs.mstatus, hmtvec.trans hs.mtvec,
        hs.mepc, h.symm, hs.mscratch⟩⟩
  | mscratch =>
      rw [LosesWrite, not_not]
      refine (hs.next_csr hf).trans ?_
      exact ⟨fun h => h.2.2.2.2.symm, fun h => ⟨hmstatus.trans hs.mstatus, hmtvec.trans hs.mtvec,
        hs.mepc, hs.mcause, h.symm⟩⟩

/-- A CSR instruction that only reads. -/
theorem step_csr_read (hram : C.Altsyncram) (hi : Unstalled i s) (hs : Shows C s h) {c : Csr}
    (hw : instrMemText C s = (Instr.csr o d r c.addr).encode) (hwr : o.writes r = false) :
    Shows C (posedge C i s) { h.compute d (h.csr c) with cycles := h.cycles + 1 } := by
  have hf := csrFrame hram hi hw
  have hmstatus := csr_mstatus hi hw
  have hmtvec := csr_mtvec hi hw
  rw [eval_of_not_writes hs.regs_zero hwr] at hmstatus hmtvec
  -- what is written back is what was read
  have hmstatus' : (posedge C i s).mstatus = s.mstatus := by
    rw [hmstatus]
    split_ifs with ha
    · rw [show csrRead C s c.addr = s.mstatus by rw [ha]; rfl, maskedWrite_self]
    · rfl
  have hmtvec' : (posedge C i s).mtvec = s.mtvec := by
    rw [hmtvec]
    split_ifs with ha
    · rw [show csrRead C s c.addr = s.mtvec by rw [ha]; rfl, maskedWrite_self]
    · rfl
  rw [← hs.csr]
  exact (hs.next_csr hf).mpr ⟨hmstatus'.trans hs.mstatus, hmtvec'.trans hs.mtvec, hs.mepc,
    hs.mcause, hs.mscratch⟩

/-- **A CSR instruction** does what the hart does unless it deviates. -/
theorem step_csr (hram : C.Altsyncram) (hi : Unstalled i s) (hs : Shows C s h)
    (hw : instrMemText C s = (Instr.csr o d r a).encode) :
    Shows C (posedge C i s) { h.exec (.csr o d r a) with cycles := h.cycles + 1 } ↔
      ¬ CsrDeviates C s o d r a := by
  have hexec : h.exec (.csr o d r a) = h.accessCsr o d r a := rfl
  rw [hexec]
  unfold Hart.accessCsr CsrDeviates
  cases hpick : pick Csr.all Csr.addr a with
  | none =>
      have hne : ∀ c : Csr, c.addr ≠ a := (pick_eq_none Csr.mem_all).mp hpick
      exact step_csr_illegal hram hi hs hw (hne .mstatus).symm (hne .mtvec).symm
  | some c =>
      obtain rfl := code_of_pick hpick
      dsimp only
      cases hwr : o.writes r with
      | false =>
          rw [if_neg Bool.false_ne_true]
          exact iff_of_true (step_csr_read hram hi hs hw hwr) fun h => Bool.false_ne_true h.1
      | true =>
          rw [if_pos rfl, and_iff_right rfl]
          cases hro : c.readOnly with
          | false =>
              rw [if_neg Bool.false_ne_true, if_neg Bool.false_ne_true]
              exact step_csr_write hram hi hs hw hro
          | true =>
              rw [if_pos rfl, if_pos rfl]
              refine step_csr_illegal hram hi hs hw ?_ ?_
              · intro ha
                cases c <;> first | exact absurd ha (by decide) | exact absurd hro (by decide)
              · intro ha
                cases c <;> first | exact absurd ha (by decide) | exact absurd hro (by decide)

end Core

end PassiFlo
