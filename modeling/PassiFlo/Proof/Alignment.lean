import PassiFlo.Proof.LoadStore

/-!
# Alignment of the PC

Instructions are four bytes, so the PC should stay a multiple of four. Every source of
the next PC keeps it there except a taken branch or jump, and the check that would
catch those is commented out in `except_F`. A run therefore stays aligned exactly as
long as it takes no transfer to an odd halfword.
-/

namespace PassiFlo

open Clocked

/-! ## Multiples of four -/

/-- `x[1:0] = 00`. -/
def Aligned (x : BitVec 64) : Prop := x.extractLsb' 0 2 = 0#2

instance (x : BitVec 64) : Decidable (Aligned x) := inferInstanceAs (Decidable (_ = _))

theorem aligned_iff {x : BitVec 64} : Aligned x ↔ x.toNat % 4 = 0 := by
  rw [Aligned, ← BitVec.toNat_inj, BitVec.extractLsb'_toNat]
  rfl

theorem aligned_zero : Aligned 0 := by decide

theorem aligned_add_four {x : BitVec 64} (h : Aligned x) : Aligned (x + 4) := by
  have h4 : (4 : BitVec 64).toNat = 4 := rfl
  rw [aligned_iff] at h ⊢
  rw [BitVec.toNat_add, h4]
  omega

theorem aligned_slice (x : BitVec 64) : Aligned (x.extractLsb' 2 62 ++ 0#2) := by
  refine BitVec.eq_of_getLsbD_eq ?_
  intro k hk
  rw [BitVec.getLsbD_extractLsb', BitVec.getLsbD_append, Nat.zero_add, if_pos hk]
  simp

/-- A halved offset added to an aligned PC. -/
theorem aligned_offset {x p : BitVec 64} (h : Aligned p) :
    Aligned ((x <<< 1) + p) ↔ x.getLsbD 0 = false := by
  rw [aligned_iff] at h ⊢
  rw [BitVec.toNat_add, BitVec.toNat_shiftLeft, Nat.shiftLeft_eq, ← BitVec.testBit_toNat,
    Nat.testBit_zero, decide_eq_false_iff_not]
  omega

/-- A target with its lowest bit cleared. -/
theorem aligned_clear {x : BitVec 64} :
    Aligned (x.extractLsb' 1 63 ++ 0#1) ↔ x.getLsbD 1 = false := by
  have hbit : ∀ k < 2, ((x.extractLsb' 1 63 ++ 0#1).extractLsb' 0 2).getLsbD k =
      (decide (k = 1) && x.getLsbD k) := by
    intro k hk
    simp only [BitVec.getLsbD_extractLsb', BitVec.getLsbD_append]
    interval_cases k <;> rfl
  constructor
  · intro h
    have h1 := hbit 1 (by decide)
    rw [h] at h1
    simpa using h1.symm
  · intro h
    refine BitVec.eq_of_getLsbD_eq ?_
    intro k hk
    rw [hbit k hk, BitVec.getLsbD_zero]
    interval_cases k
    · rfl
    · exact h

/-! ## Targets -/

/-- The offset bit that decides the alignment of a branch. -/
theorem signext_branch_bit {w : BitVec 32} (h : opcode w = 0b1100011#7) :
    (signext w).getLsbD 0 = w.getLsbD 8 := by
  have hform : signext w = rep 52 (w.getLsbD 31) ++ BitVec.ofBool (w.getLsbD 31) ++
      w.extractLsb' 7 1 ++ w.extractLsb' 25 6 ++ w.extractLsb' 8 4 := by
    unfold signext; rw [h]; rfl
  rw [hform, BitVec.getLsbD_append, if_pos (by decide), BitVec.getLsbD_extractLsb']
  rfl

/-- The offset bit that decides the alignment of a jump. -/
theorem signext_jal_bit {w : BitVec 32} (h : opcode w = 0b1101111#7) :
    (signext w).getLsbD 0 = w.getLsbD 21 := by
  have hform : signext w = rep 44 (w.getLsbD 31) ++ BitVec.ofBool (w.getLsbD 31) ++
      w.extractLsb' 12 8 ++ w.extractLsb' 20 1 ++ w.extractLsb' 21 10 := by
    unfold signext; rw [h]; rfl
  rw [hform, BitVec.getLsbD_append, if_pos (by decide), BitVec.getLsbD_extractLsb']
  rfl

/--
The target of the branch or jump `w` lies on an odd halfword: bit 1 of the offset is
set, which is bit 8 of a branch and bit 21 of JAL, or bit 1 of the sum of JALR.
-/
def OddTarget (s : State) (w : BitVec 32) : Prop :=
  opcode w = 0b1100011#7 ∧ w.getLsbD 8 = true ∨ opcode w = 0b1101111#7 ∧ w.getLsbD 21 = true ∨
    opcode w = 0b1100111#7 ∧ (s.regs (rs1 w) + iImm w).getLsbD 1 = true

instance (s : State) (w : BitVec 32) : Decidable (OddTarget s w) :=
  inferInstanceAs (Decidable (_ ∧ _ ∨ _ ∧ _ ∨ _ ∧ _))

namespace Core

variable {C : Chip} {i : Inputs} {s : State}

theorem branch_ne_zero (h : pcSrc C i s = true) : (ctl C i s).branch ≠ 0 := by
  intro h0
  rw [pcSrc, h0] at h
  exact Bool.false_ne_true h

/-- **Where a taken transfer goes**, up to alignment. -/
theorem aligned_pcBranch (h : coprocessorStall i s = false) (hsrc : pcSrc C i s = true)
    (hpc : Aligned s.pc) :
    Aligned (exec C i s).pcBranch ↔ ¬ OddTarget s (instrMemText C s) := by
  have hb := branch_ne_zero hsrc
  rw [ctl_unstalled h] at hb
  obtain ⟨hop, -, -, -, -, hsel, haluSrc⟩ := maindec_branch hb
  rw [← ctl_unstalled h] at hsel haluSrc
  have hrs : (dec C i s).readData1 = s.regs (rs1 (instrMemText C s)) := by
    simp only [dec, decode, hsel, BitVec.getLsbD_zero, Bool.false_eq_true, if_false]
  have hjump : opcode (instrMemText C s) ≠ 0b1100111#7 →
      (exec C i s).pcBranch = (signext (instrMemText C s) <<< 1) + s.pc := by
    intro hj
    have hsrc' : (ctl C i s).aluSrc = false := by
      rw [Bool.eq_false_iff]; exact fun h => hj (haluSrc.mp h)
    have himm : (dec C i s).signImm = signext (instrMemText C s) := if_neg hj
    simp only [exec, execute, hsrc', himm, Bool.false_eq_true, if_false]
  rcases hop with hop | hop | hop
  · rw [hjump (by rw [hop]; decide), aligned_offset hpc, signext_branch_bit hop, OddTarget, hop]
    simp
  · rw [hjump (by rw [hop]; decide), aligned_offset hpc, signext_jal_bit hop, OddTarget, hop]
    simp
  · have htarget : (exec C i s).pcBranch = (s.regs (rs1 (instrMemText C s)) +
        iImm (instrMemText C s)).extractLsb' 1 63 ++ 0#1 := by
      have himm : (dec C i s).signImm = (dec C i s).readData1 + signext (instrMemText C s) :=
        if_pos hop
      rw [hrs, signext_iImm (.inr (.inl hop))] at himm
      simp only [exec, execute, haluSrc.mpr hop, himm, if_true]
    rw [htarget, aligned_clear, OddTarget, hop]
    simp

/-! ## Runs -/

/-- What the program relies on in a cycle. -/
structure PcGood (C : Chip) (i : Inputs) (s : State) : Prop where
  aligned : Aligned s.pc
  /-- A misaligned target raises the exception and is not installed. -/
  raises : Unstalled i s → pcSrc C i s = true → ¬ Aligned (exec C i s).pcBranch →
    (exceptSignal C i s).getLsbD 0 = true ∧ (posedge C i s).pc ≠ (exec C i s).pcBranch

/-- The cycle takes a branch or jump to an odd halfword. -/
def TakesOddTarget (C : Chip) (i : Inputs) (s : State) : Prop :=
  Unstalled i s ∧ pcSrc C i s = true ∧ OddTarget s (instrMemText C s)

/-- Both places the PC can come back from. -/
structure AlignInv (s : State) : Prop where
  pc : Aligned s.pc
  mepc : Aligned s.mepc

theorem alignInv_settle (h : AlignInv s) : AlignInv (settle i s) := by
  unfold settle
  cases i.reset with
  | true => exact ⟨aligned_zero, aligned_zero⟩
  | false => exact ⟨h.pc, h.mepc⟩

/-- A branch or jump raises no exception. -/
theorem exceptSignal_branch (h : coprocessorStall i s = false) (hsrc : pcSrc C i s = true) :
    exceptSignal C i s = 0 := by
  have hb := branch_ne_zero hsrc
  rw [ctl_unstalled h] at hb
  obtain ⟨-, hexc, hread, hwrite, -, -, -⟩ := maindec_branch hb
  rw [← ctl_unstalled h] at hexc hread hwrite
  rw [exceptSignal_eq, exceptBits_eq_zero, hexc, hread, hwrite, Bool.and_false]
  exact ⟨rfl, rfl, rfl⟩

theorem alignInv_posedge (h : AlignInv s) (hodd : ¬ TakesOddTarget C i s) :
    AlignInv (posedge C i s) := by
  have hmepc : Aligned (posedge C i s).mepc := by
    simp only [posedge, ExceptController.mepcNext, flopre, flopreInit]
    split_ifs
    · exact aligned_zero
    · exact h.pc
    · exact h.mepc
  refine ⟨?_, hmepc⟩
  cases hr : i.reset with
  | true =>
      simp only [posedge, fetchNext, flopre, flopreInit, hr, if_true]
      exact aligned_zero
  | false =>
      cases hst : coprocessorStall i s with
      | true => rw [posedge_stalled hr hst]; exact h.pc
      | false =>
          rw [posedge_pc ⟨hr, hst⟩]
          split_ifs with ht hret hsrc
          · exact aligned_slice _
          · exact h.mepc
          · exact (aligned_pcBranch hst hsrc h.pc).mpr fun ho => hodd ⟨⟨hr, hst⟩, hsrc, ho⟩
          · exact aligned_add_four h.pc

/--
**PC alignment.** From reset, the PC stays a multiple of four, with every misaligned
target caught, exactly in the runs that take no branch or jump to an odd halfword.
-/
theorem pc_aligned_iff (C : Chip) (j : Inputs) (s : State) (is : List Inputs) :
    (Along C (fun i t => PcGood C i (settle i t)) is (settle { j with reset := true } s) ∧
        Aligned (run C is (settle { j with reset := true } s)).pc) ↔
      Along C (fun i t => ¬ TakesOddTarget C i (settle i t)) is
        (settle { j with reset := true } s) := by
  constructor
  · intro hruns
    obtain ⟨hgood, -⟩ := hruns
    refine along_mono (fun i t hg ho => ?_) is _ hgood
    have hmis : ¬ Aligned (exec C i (settle i t)).pcBranch := fun ha =>
      (aligned_pcBranch ho.1.stall ho.2.1 hg.aligned).mp ha ho.2.2
    have hraise := (hg.raises ho.1 ho.2.1 hmis).1
    rw [exceptSignal_branch ho.1.stall ho.2.1] at hraise
    exact absurd hraise (by decide)
  · intro hodd
    have hstep : ∀ i t, ¬ TakesOddTarget C i (settle i t) → AlignInv t →
        PcGood C i (settle i t) ∧ AlignInv (cycle C i t) := by
      intro i t ho ht
      have hset := alignInv_settle (i := i) ht
      refine ⟨⟨hset.pc, fun hi hsrc hmis => ?_⟩, alignInv_posedge hset ho⟩
      exact absurd ((aligned_pcBranch hi.stall hsrc hset.pc).mpr fun h => ho ⟨hi, hsrc, h⟩) hmis
    have hrun := along_preserves hstep is _ hodd
      (show AlignInv (settle { j with reset := true } s) from ⟨aligned_zero, aligned_zero⟩)
    exact ⟨hrun.1, hrun.2.pc⟩

/-- `jalr x0, 2(x0)` leaves the PC at 2. -/
theorem pc_misaligned_jalr :
    ¬ ∀ (C : Chip) (j : Inputs) (s : State) (is : List Inputs),
      Along C (fun i t => PcGood C i (settle i t)) is (settle { j with reset := true } s) ∧
        Aligned (run C is (settle { j with reset := true } s)).pc := by
  intro h
  have hpc := (h (Chip.ofProgram [0x00200067#32]) Inputs.idle (State.released (fun _ => 0) 0)
    [Inputs.idle]).2
  revert hpc
  decide +kernel

end Core

end PassiFlo
