import PassiFlo.Rtl.Run
import PassiFlo.Proof.Cycle

/-!
# The CSR registers keep their shape

`mstatus` is rebuilt from slices by every writer, `mtvec` is masked, and `mcause`
only ever receives what `exceptDecode` returns. The decoder's fall-through value 31
is never recorded: every exception bit the core can raise has an arm of its own, and
the one that depends on `breakSrc` raises its `breakSrc` bit in the same cycle.
-/

namespace PassiFlo

/-! ## The writable bits of mstatus -/

/-- MIE, MPIE and MPP: bits 3, 7, 11 and 12. -/
def mstatusMask : BitVec 64 := 0x1888#64

theorem mstatusMask_getLsbD {k : Nat} (hk : k < 64) :
    mstatusMask.getLsbD k = (k == 3 || k == 7 || k == 11 || k == 12) := by
  interval_cases k <;> rfl

theorem mstatusMerge_getLsbD (m : BitVec 64) (t : BitVec 4) {k : Nat} (hk : k < 64) :
    (mstatusMerge m t).getLsbD k =
      if k = 3 then t.getLsbD 0 else if k = 7 then t.getLsbD 1
      else if k = 11 then t.getLsbD 2 else if k = 12 then t.getLsbD 3 else m.getLsbD k := by
  simp only [mstatusMerge, BitVec.getLsbD_append, BitVec.getLsbD_extractLsb']
  by_cases h : k < 13
  · interval_cases k <;> rfl
  · -- above the last slice nothing is replaced
    simp only [show ¬ k < 3 by omega, show ¬ k - 3 < 1 by omega, show ¬ k - 3 - 1 < 3 by omega,
      show ¬ k - 3 - 1 - 3 < 1 by omega, show ¬ k - 3 - 1 - 3 - 1 < 3 by omega,
      show ¬ k - 3 - 1 - 3 - 1 - 3 < 2 by omega, show k - 3 - 1 - 3 - 1 - 3 - 2 < 51 by omega,
      show 13 + (k - 3 - 1 - 3 - 1 - 3 - 2) = k by omega, show k ≠ 3 by omega, show k ≠ 7 by omega,
      show k ≠ 11 by omega, show k ≠ 12 by omega, if_false, decide_true, Bool.true_and]

/-- Merging only touches the writable bits. -/
theorem mstatusMerge_and_not_mask (m : BitVec 64) (t : BitVec 4) :
    mstatusMerge m t &&& ~~~mstatusMask = m &&& ~~~mstatusMask := by
  refine BitVec.eq_of_getLsbD_eq ?_
  intro k hk
  simp only [BitVec.getLsbD_and, BitVec.getLsbD_not, mstatusMerge_getLsbD m t hk,
    mstatusMask_getLsbD hk]
  split_ifs <;> simp_all

theorem mstatusMerge_mie (m : BitVec 64) (t : BitVec 4) :
    (mstatusMerge m t).getLsbD 3 = t.getLsbD 0 :=
  mstatusMerge_getLsbD m t (k := 3) (by decide)

theorem mstatusMerge_mpie (m : BitVec 64) (t : BitVec 4) :
    (mstatusMerge m t).getLsbD 7 = t.getLsbD 1 :=
  mstatusMerge_getLsbD m t (k := 7) (by decide)

theorem mstatusMerge_mpp (m : BitVec 64) (t : BitVec 4) :
    (mstatusMerge m t).extractLsb' 11 2 = t.extractLsb' 2 2 := by
  refine BitVec.eq_of_getLsbD_eq ?_
  intro k hk
  rw [BitVec.getLsbD_extractLsb', BitVec.getLsbD_extractLsb',
    mstatusMerge_getLsbD m t (by omega)]
  interval_cases k <;> rfl

theorem privStack_mie (m : BitVec 64) : (privStack m).getLsbD 0 = m.getLsbD 3 := by
  simp only [privStack, BitVec.getLsbD_append, BitVec.getLsbD_ofBool]
  rfl

theorem privStack_mpie (m : BitVec 64) : (privStack m).getLsbD 1 = m.getLsbD 7 := by
  simp only [privStack, BitVec.getLsbD_append, BitVec.getLsbD_ofBool]
  rfl

theorem privStack_mpp (m : BitVec 64) {k : Nat} (hk : k < 2) :
    (privStack m).getLsbD (2 + k) = m.getLsbD (11 + k) := by
  simp only [privStack, BitVec.getLsbD_append, BitVec.getLsbD_extractLsb']
  interval_cases k <;> rfl

/-- Writing back the bits that are there changes nothing. -/
theorem mstatusMerge_privStack (m : BitVec 64) : mstatusMerge m (privStack m) = m := by
  refine BitVec.eq_of_getLsbD_eq ?_
  intro k hk
  rw [mstatusMerge_getLsbD m _ hk]
  split_ifs with h3 h7 h11 h12
  · subst h3; exact privStack_mie m
  · subst h7; exact privStack_mpie m
  · subst h11; exact privStack_mpp m (k := 0) (by decide)
  · subst h12; exact privStack_mpp m (k := 1) (by decide)
  · rfl

/-! ## The cause that is recorded -/

/-- **Every exception the core can raise has a decode arm.** -/
theorem exceptDecode_mem : ∀ (d : BitVec 3) (store load : Bool),
    Core.exceptBits d store load ≠ 0 →
      exceptDecode (Core.exceptBits d store load) (BitVec.ofBool (d.getLsbD 0) ++ 0#1 ++ 0#1) ∈
        [0x2#6, 0x3#6, 0x4#6, 0x6#6, 0x8#6] := by
  decide

namespace Core

variable {C : Chip} {i : Inputs} {s : State}

theorem breakSrc_eq :
    breakSrc C i s = BitVec.ofBool ((ctl C i s).exceptSignal.getLsbD 0) ++ 0#1 ++ 0#1 := by
  have h6 : ∀ (a : BitVec 1) (b : Bool),
      (0b0000#4 ++ a ++ 0#1 ++ BitVec.ofBool b : BitVec 7).extractLsb' 6 1 = 0#1 := by decide
  have hF : (exceptSignalF s).extractLsb' 3 1 = 0#1 := by unfold exceptSignalF exceptF; decide
  have hD : (ctl C i s).breakSrc = (ctl C i s).exceptSignal.getLsbD 0 := rfl
  simp only [breakSrc, exceptSignalE, exceptE, h6, hF, hD]

/-- The codes `mcause` can hold: 0 after reset, and the synchronous causes. -/
def definedCauses : List (BitVec 64) := [0, 2, 3, 4, 6, 8, 9, 11]

theorem mcauseCode_mem (h : exceptSignal C i s ≠ 0) :
    ExceptController.mcauseCode false (exceptSignal C i s) interruptSignal (breakSrc C i s) ∈
      definedCauses := by
  rw [exceptSignal_eq] at h
  have hmem := exceptDecode_mem _ _ _ h
  have hcode : ∀ c ∈ [0x2#6, 0x3#6, 0x4#6, 0x6#6, 0x8#6], (0#1 ++ 0#57 ++ c : BitVec 64) ∈
      definedCauses := by
    intro c hc
    simp only [List.mem_cons, List.not_mem_nil, or_false] at hc
    rcases hc with rfl | rfl | rfl | rfl | rfl <;> decide
  rw [exceptSignal_eq, breakSrc_eq]
  exact hcode _ hmem

/-! ## The invariant -/

/-- The shape of the trap CSRs. -/
structure CsrInv (s : State) : Prop where
  /-- Only MPP, MPIE and MIE ever move. -/
  mstatus : s.mstatus &&& ~~~0x1888#64 = 0x200000000#64
  /-- Only bits 23..2 are implemented. -/
  mtvec : s.mtvec &&& ~~~0xfffffc#64 = 0#64
  /-- Only defined causes are recorded. -/
  mcause : s.mcause ∈ definedCauses

theorem csrInv_settle (h : CsrInv s) : CsrInv (settle i s) := by
  cases hr : i.reset with
  | false => exact ⟨by simpa [settle, hr] using h.mstatus, by simpa [settle, hr] using h.mtvec,
      by simpa [settle, hr] using h.mcause⟩
  | true => exact ⟨by simp only [settle, hr, if_true]; decide,
      by simp only [settle, hr, if_true]; decide, by simp only [settle, hr, if_true]; decide⟩

theorem csrInv_posedge (h : CsrInv s) : CsrInv (posedge C i s) where
  mstatus := by
    simp only [posedge, CoreStatus.mstatusNext, flopreInit]
    split_ifs
    · decide
    · exact (mstatusMerge_and_not_mask _ _).trans h.mstatus
    · exact h.mstatus
  mtvec := by
    simp only [posedge, ExceptController.mtvecNext, flopre, flopreInit]
    split_ifs
    · decide
    · have hm := h.mtvec
      rw [show (0xfffffc#64) = ExceptController.mtvecMask by decide] at hm ⊢
      rw [hm, BitVec.zero_or, BitVec.and_assoc, BitVec.and_not_self]
      exact BitVec.and_zero
    · exact h.mtvec
  mcause := by
    simp only [posedge, ExceptController.mcauseNext, flopre, flopreInit, exceptCSREnable_eq]
    split_ifs with _ hen
    · decide
    · exact mcauseCode_mem (trapTrigger_ne_zero_iff.mp (by simpa using hen)).2
    · exact h.mcause

/-- **The CSR invariant.** -/
theorem csrInv_reachable (h : Reachable C s) : CsrInv s := by
  induction h with
  | @powerUp s i _ hr =>
      exact ⟨by simp only [settle, hr, if_true]; decide, by simp only [settle, hr, if_true]; decide,
        by simp only [settle, hr, if_true]; decide⟩
  | settle i _ ih => exact csrInv_settle ih
  | cycle i _ ih => exact csrInv_posedge (csrInv_settle ih)

/-- `csrrwi x0, mstatus, 8` and `ecall`: the trap that `ecall` takes records cause 8. -/
theorem csrInv_ecall :
    (run (Chip.ofProgram [0x30045073#32, 0x00000073#32]) [Inputs.idle, Inputs.idle]
      (State.released (fun _ => 0) 0)).mcause = 8 ∧
    CsrInv (run (Chip.ofProgram [0x30045073#32, 0x00000073#32]) [Inputs.idle, Inputs.idle]
      (State.released (fun _ => 0) 0)) :=
  ⟨by decide +kernel, csrInv_reachable ((reachable_released _ _ _).run _)⟩

end Core

end PassiFlo
