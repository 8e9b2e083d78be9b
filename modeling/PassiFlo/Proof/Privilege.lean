import PassiFlo.Proof.CsrAccess
import PassiFlo.Proof.PreciseTraps

/-!
# Privilege modes

`misa` announces two modes, U and M. Trap entry saves the mode in MPP, `mret` takes it
from there, and so the mode and MPP have to be legal together. Both are, except that a
CSR instruction may write anything into MPP: a run stays legal exactly as long as none
puts a reserved mode there.
-/

namespace PassiFlo

open Isa Clocked

/-! ## Legal modes -/

/-- The modes of the hart: M always, U and S if `misa` has the bit of the extension. -/
def Implemented (m : BitVec 2) : Prop :=
  m = 0b11#2 ∨ m = 0b00#2 ∧ misa.getLsbD 20 = true ∨ m = 0b01#2 ∧ misa.getLsbD 18 = true

instance (m : BitVec 2) : Decidable (Implemented m) :=
  inferInstanceAs (Decidable (_ ∨ _ ∧ _ ∨ _ ∧ _))

theorem implemented_iff : ∀ m : BitVec 2, Implemented m ↔ m = 0b00#2 ∨ m = 0b11#2 := by
  decide

/-- The current mode and the one `mret` returns to. -/
structure ModesLegal (s : State) : Prop where
  mode : Implemented s.mode
  mpp : Implemented (s.mstatus.extractLsb' 11 2)

/--
What makes the new MPP reserved: `rs1[12:11]` is 01 or 10, and the operation lets it
through to MPP as it stands.
-/
def ReservesMpp (mpp operand : BitVec 2) : CsrOp → Prop
  | .csrrw => ¬ Implemented operand
  | .csrrs => mpp = 0b00#2 ∧ ¬ Implemented operand
  | .csrrc => mpp = 0b11#2 ∧ ¬ Implemented operand
  | _ => False

instance (mpp operand : BitVec 2) (o : CsrOp) : Decidable (ReservesMpp mpp operand o) := by
  cases o <;> unfold ReservesMpp <;> infer_instance

/-- MPP after a CSR instruction; an immediate shows there with two copies of its sign. -/
def newMpp (mpp operand : BitVec 2) (sign : Bool) : CsrOp → BitVec 2
  | .csrrw => operand
  | .csrrs => mpp ||| operand
  | .csrrc => mpp &&& ~~~operand
  | .csrrwi => rep 2 sign
  | .csrrsi => mpp ||| rep 2 sign
  | .csrrci => mpp &&& ~~~rep 2 sign

/-- From a legal MPP only the register forms reach a reserved one. -/
theorem newMpp_implemented_iff : ∀ (o : CsrOp) (mpp operand : BitVec 2) (sign : Bool),
    Implemented mpp → (Implemented (newMpp mpp operand sign o) ↔ ¬ ReservesMpp mpp operand o) := by
  decide

namespace Core

variable {C : Chip} {i : Inputs} {s : State}

/-- This cycle executes a CSR instruction on `mstatus` that puts a reserved mode into MPP. -/
def WritesReservedMpp (C : Chip) (i : Inputs) (s : State) : Prop :=
  Unstalled i s ∧ ∃ o d r, instrMemText C s = (Instr.csr o d r 0x300#12).encode ∧
    ReservesMpp (s.mstatus.extractLsb' 11 2) ((s.regs r).extractLsb' 11 2) o

/-! ## The step -/

theorem modesLegal_reset : Implemented 0b11#2 ∧ Implemented (mstatusInit.extractLsb' 11 2) := by
  decide

theorem modesLegal_settle (h : ModesLegal s) : ModesLegal (settle i s) := by
  unfold settle
  cases i.reset with
  | true => exact ⟨modesLegal_reset.1, modesLegal_reset.2⟩
  | false => exact ⟨h.mode, h.mpp⟩

/-- A CSR write of `mstatus` replaces MPP. -/
theorem maskedWrite_mpp (m x : BitVec 64) :
    (maskedWrite mstatusMask m x).extractLsb' 11 2 = x.extractLsb' 11 2 := by
  refine BitVec.eq_of_getLsbD_eq ?_
  intro k hk
  rw [BitVec.getLsbD_extractLsb', BitVec.getLsbD_extractLsb',
    maskedWrite_getLsbD _ _ _ (by omega), mstatusMask_getLsbD (by omega)]
  interval_cases k <;> rfl

/-- The MPP a CSR instruction computes. -/
theorem eval_mpp (o : CsrOp) (r : BitVec 5) (regs : BitVec 5 → BitVec 64) (m : BitVec 64) :
    (o.eval (seenOperand regs r o) m).extractLsb' 11 2 =
      newMpp (m.extractLsb' 11 2) ((regs r).extractLsb' 11 2) (r.getLsbD 4) o := by
  have hsign : (r.signExtend 64).extractLsb' 11 2 = rep 2 (r.getLsbD 4) := by
    cases hr : r.getLsbD 4 with
    | true => exact slice_signExtend hr (by decide) (by decide)
    | false =>
        have hmsb : r.msb = false := by rw [BitVec.msb_eq_getLsbD_last]; exact hr
        rw [BitVec.signExtend_eq_setWidth_of_msb_false hmsb]
        exact slice_setWidth r (by decide)
  cases o <;> simp only [newMpp, ← hsign, CsrOp.eval, seenOperand, CsrOp.immediate, if_true,
    Bool.false_eq_true, if_false, BitVec.extractLsb'_or, BitVec.extractLsb'_and,
    BitVec.extractLsb'_not_of_lt (show 11 + 2 < 64 by decide)]

/-- A CSR instruction on `mstatus`: the new MPP. -/
theorem posedge_csr_mpp {o : CsrOp} {d r : BitVec 5} (hi : Unstalled i s)
    (hw : instrMemText C s = (Instr.csr o d r 0x300#12).encode) :
    (posedge C i s).mstatus.extractLsb' 11 2 =
      newMpp (s.mstatus.extractLsb' 11 2) ((s.regs r).extractLsb' 11 2) (r.getLsbD 4) o := by
  rw [posedge_csr hi hw, csrIn_csr hi.stall hw]
  exact (maskedWrite_mpp _ _).trans (eval_mpp o r s.regs s.mstatus)

/-- A reset cycle. -/
theorem modesLegal_posedge_reset (hr : i.reset = true) : ModesLegal (posedge C i s) := by
  constructor
  · simp only [posedge, CoreStatus.modeNext, flopreInit, hr, if_true]
    exact modesLegal_reset.1
  · simp only [posedge, CoreStatus.mstatusNext, flopreInit, hr, if_true]
    exact modesLegal_reset.2

/-- The writers other than CSR instructions keep the modes legal. -/
theorem modesLegal_noWrite (h : ModesLegal s) (hen : mstatusCSREnable C i s = false) :
    ModesLegal (posedge C i s) := by
  cases hr : i.reset with
  | true => exact modesLegal_posedge_reset hr
  | false =>
      by_cases ht : trapTrigger C i s = 0
      · cases hret : (ctl C i s).trapReturn with
        | true =>
            obtain ⟨h1, h2⟩ := posedge_return hr ht hret
            have hzero : (0b00#2 ++ 1#1 ++ BitVec.ofBool (s.mstatus.getLsbD 7) :
                BitVec 4).extractLsb' 2 2 = 0b00#2 := by
              cases s.mstatus.getLsbD 7 <;> decide
            refine ⟨by rw [h1]; exact h.mpp, ?_⟩
            rw [h2, mstatusMerge_mpp, hzero]
            decide
        | false =>
            obtain ⟨h1, -, -, h2⟩ := posedge_noTrap hr ht hret
            rw [hen, if_neg Bool.false_ne_true] at h2
            exact ⟨by rw [h1]; exact h.mode, by rw [h2]; exact h.mpp⟩
      · -- the trap saves the mode
        obtain ⟨h1, h2, -⟩ := posedge_trap hr ht
        have hsaved : ∀ (m : BitVec 2) (b : Bool),
            (m ++ BitVec.ofBool b ++ 0#1 : BitVec 4).extractLsb' 2 2 = m := by decide
        refine ⟨by rw [h1]; exact modesLegal_reset.1, ?_⟩
        rw [h2, mstatusMerge_mpp, hsaved]
        exact h.mode

/-- **The step.** Legal modes stay legal exactly if no reserved mode is written. -/
theorem modesLegal_posedge (h : ModesLegal s) :
    ModesLegal (posedge C i s) ↔ ¬ WritesReservedMpp C i s := by
  constructor
  · intro hlegal hreserved
    obtain ⟨hi, o, d, r, hw, hres⟩ := hreserved
    have hmpp := hlegal.mpp
    rw [posedge_csr_mpp hi hw, newMpp_implemented_iff o _ _ _ h.mpp] at hmpp
    exact hmpp hres
  · intro hno
    cases hen : mstatusCSREnable C i s with
    | false => exact modesLegal_noWrite h hen
    | true =>
        cases hr : i.reset with
        | true => exact modesLegal_posedge_reset hr
        | false =>
            rw [mstatusCSREnable, Bool.and_eq_true, beq_iff_eq] at hen
            obtain ⟨haddr, hcsr⟩ := hen
            have hst : coprocessorStall i s = false := by
              rw [Bool.eq_false_iff]
              intro hst
              rw [csrWriteEnable, ctl_stalled hst] at hcsr
              exact Bool.false_ne_true hcsr
            have hi : Unstalled i s := ⟨hr, hst⟩
            rw [csrWriteEnable, ctl_unstalled hst, maindec_csrWriteEnable] at hcsr
            obtain ⟨o, hw⟩ := exists_csr hcsr.1 hcsr.2
            rw [csrAddr] at haddr
            rw [haddr] at hw
            refine ⟨?_, ?_⟩
            · rw [posedge_csr hi hw]
              exact h.mode
            · rw [posedge_csr_mpp hi hw, newMpp_implemented_iff o _ _ _ h.mpp]
              exact fun hres => hno ⟨hi, o, _, _, hw, hres⟩

/-! ## Runs -/

/--
**Privilege mode legality.** From reset, the mode and MPP are modes of the hart in every
state exactly in the runs that never write a reserved mode into MPP.
-/
theorem modes_legal_iff (C : Chip) (j : Inputs) (s : State) (is : List Inputs) :
    (∀ p, p <+: is → ModesLegal (run C p (settle { j with reset := true } s))) ↔
      Along C (fun i t => ¬ WritesReservedMpp C i (settle i t)) is
        (settle { j with reset := true } s) :=
  forall_prefix_iff_along (fun _ _ h => modesLegal_posedge (modesLegal_settle h)) is _
    ⟨modesLegal_reset.1, modesLegal_reset.2⟩

/-- `lui x1, 1`, `srli x1, x1, 1`, `csrw mstatus, x1`: MPP is S, and `mret` enters it. -/
theorem modes_reserved_csrw :
    ¬ ∀ (C : Chip) (j : Inputs) (s : State) (is p : List Inputs), p <+: is →
      ModesLegal (run C p (settle { j with reset := true } s)) := by
  intro h
  have hlegal := h (Chip.ofProgram [0x000010b7#32, 0x0010d093#32, 0x30009073#32, 0x30200073#32])
    Inputs.idle (State.released (fun _ => 0) 0) (List.replicate 4 Inputs.idle)
    (List.replicate 4 Inputs.idle) (List.prefix_refl _)
  exact absurd hlegal.mode (by decide +kernel)

end Core

end PassiFlo
