import PassiFlo.Proof.LoadStore
import PassiFlo.Proof.Grammar
import PassiFlo.Proof.Status

/-!
# Which traps are taken, and why

Five kinds of instruction raise an exception, each with a pattern of its own on the
exception vector. The vector reaches `mcause` through the priority encoder, which has an
arm for each of the three modes of `ecall`; but all three of its inputs are the same
wire, so that the first arm answers for every mode.
-/

namespace PassiFlo

open Isa

/-! ## What the decoder raises -/

/-- **The decoder's exceptions**, each with the words that raise it. -/
theorem maindec_except_cases (op : BitVec 7) (f3 : BitVec 3) (f12 : BitVec 12) :
    (maindec false op f3 f12).exceptSignal = 0 ∨
      (maindec false op f3 f12).exceptSignal = 0b100#3 ∧
        (op ∉ opcodes ∨ op = 0b1110011#7 ∧ (f3 = 0b100#3 ∨
          f3 = 0b000#3 ∧ f12 ≠ 0x000#12 ∧ f12 ≠ 0x001#12 ∧ f12 ≠ 0x302#12)) ∨
      (maindec false op f3 f12).exceptSignal = 0b010#3 ∧
        op = 0b1110011#7 ∧ f3 = 0b000#3 ∧ f12 = 0x000#12 ∨
      (maindec false op f3 f12).exceptSignal = 0b001#3 ∧
        op = 0b1110011#7 ∧ f3 = 0b000#3 ∧ f12 = 0x001#12 := by
  rw [← maindec_illegal_iff]
  by_cases hop : op = 0b1110011#7
  · subst hop
    change (MainDec.ofBits (systemOutput f3 f12)).exceptSignal = 0 ∨
      (MainDec.ofBits (systemOutput f3 f12)).exceptSignal = 0b100#3 ∧
        (MainDec.ofBits (systemOutput f3 f12)).exceptSignal.getLsbD 2 = true ∨
      (MainDec.ofBits (systemOutput f3 f12)).exceptSignal = 0b010#3 ∧ _ ∨
      (MainDec.ofBits (systemOutput f3 f12)).exceptSignal = 0b001#3 ∧ _
    unfold systemOutput
    split_ifs with h3 h1 h0 h302 hrw hrwi
    · exact .inr (.inr (.inr ⟨by decide, rfl, h3, h1⟩))
    · exact .inr (.inr (.inl ⟨by decide, rfl, h3, h0⟩))
    · exact .inl (by decide)
    · exact .inr (.inl ⟨by decide, by decide⟩)
    · exact .inl (by decide)
    · exact .inl (by decide)
    · exact .inr (.inl ⟨by decide, by decide⟩)
  · -- outside SYSTEM an instruction is undefined or raises nothing
    have hrow : (maindec false op f3 f12).exceptSignal = 0 ∨
        (maindec false op f3 f12).exceptSignal = 0b100#3 := by
      revert hop
      exact maindec_rule
        (P := fun op d => op ≠ 0b1110011#7 → d.exceptSignal = 0 ∨ d.exceptSignal = 0b100#3)
        (by decide +kernel) (fun _ _ _ => .inr (by decide)) op f3 f12
    rcases hrow with h | h
    · exact .inl h
    · exact .inr (.inl ⟨h, by rw [h]; decide⟩)

/-! ## The patterns on the exception vector -/

namespace Isa

/-- The decoder's part of a trap. -/
def Trap.decoded : Trap → BitVec 3
  | illegal => 0b100#3
  | ecall => 0b010#3
  | ebreak => 0b001#3
  | load | store => 0

/-- The pattern of a trap on the exception vector. -/
def Trap.signal (t : Trap) : BitVec 16 :=
  Core.exceptBits t.decoded (t == store) (t == load)

/-- The cause the core records: it takes every `ecall` for one from mode U. -/
def Trap.recorded : Trap → BitVec 64
  | illegal => 2
  | ecall => 8
  | ebreak => 3
  | load => 4
  | store => 6

theorem Trap.signal_ne_zero (t : Trap) : t.signal ≠ 0 := by
  cases t <;> decide

/-- The recorded cause is the right one except for an `ecall` from above mode U. -/
theorem Trap.recorded_iff (t : Trap) (mode : BitVec 2) :
    (∀ c, t.cause mode = some c → t.recorded = c) ↔
      ¬ (t = ecall ∧ (mode = 0b01#2 ∨ mode = 0b11#2)) := by
  cases t with
  | ecall =>
      rw [and_iff_right rfl, Trap.cause]
      constructor
      · intro h hcode
        rcases hcode with rfl | rfl
        · exact absurd (h 9 rfl) (by decide)
        · exact absurd (h 11 rfl) (by decide)
      · intro h c hc
        split_ifs at hc with h0 h1 h3
        · exact Option.some.inj hc
        · exact absurd (.inl h1) h
        · exact absurd (.inr h3) h
  | illegal | ebreak | load | store =>
      exact iff_of_true (fun c hc => Option.some.inj hc) fun h => nomatch h.1

/-- **The priority encoder**, on the patterns that occur. -/
theorem Trap.mcauseCode_signal (t : Trap) :
    ExceptController.mcauseCode false t.signal 0
      (BitVec.ofBool (t.decoded.getLsbD 0) ++ 0#1 ++ 0#1) = t.recorded := by
  cases t <;> decide

end Isa

namespace Core

variable {C : Chip} {i : Inputs} {s : State}

/-- The instruction `w` calls for the trap `t`. -/
def Raises (s : State) (w : BitVec 32) : Trap → Prop
  | .illegal => opcode w ∉ opcodes ∨ opcode w = 0b1110011#7 ∧ (funct3 w = 0b100#3 ∨
      funct3 w = 0b000#3 ∧ funct12 w ≠ 0x000#12 ∧ funct12 w ≠ 0x001#12 ∧ funct12 w ≠ 0x302#12)
  | .ecall => opcode w = 0b1110011#7 ∧ funct3 w = 0b000#3 ∧ funct12 w = 0x000#12
  | .ebreak => opcode w = 0b1110011#7 ∧ funct3 w = 0b000#3 ∧ funct12 w = 0x001#12
  | .load => opcode w = 0b0000011#7 ∧
      8 < ((loadAddr s w).extractLsb' 0 3).toNat + accessBytes (loadSize (funct3 w))
  | .store => opcode w = 0b0100011#7 ∧
      8 < ((storeAddr s w).extractLsb' 0 3).toNat + accessBytes (storeSize (funct3 w))

/-- An exception of the decoder is the only one. -/
theorem exceptSignal_decoded (h : coprocessorStall i s = false) {d : BitVec 3}
    (hd : (ctl C i s).exceptSignal = d) (hne : d ≠ 0) :
    exceptSignal C i s = exceptBits d false false := by
  have hinert : (ctl C i s).toMainDec.Inert := by
    rw [ctl_unstalled h]
    refine maindec_except_inert ?_
    rw [← ctl_unstalled h, hd]
    exact hne
  rw [exceptSignal_eq, hd, hinert.memRead, hinert.memWrite, Bool.and_false]

/-- What raises a trap puts its pattern on the vector. -/
theorem exceptSignal_raises (h : coprocessorStall i s = false) {t : Trap}
    (ht : Raises s (instrMemText C s) t) :
    (ctl C i s).exceptSignal = t.decoded ∧ exceptSignal C i s = t.signal := by
  cases t with
  | illegal =>
      have hbit : (ctl C i s).exceptSignal.getLsbD 2 = true := by
        rw [ctl_unstalled h]
        exact maindec_illegal_iff.mpr ht
      have hd : (ctl C i s).exceptSignal = 0b100#3 := by
        have hcases := maindec_except_cases (opcode (instrMemText C s)) (funct3 (instrMemText C s))
          (funct12 (instrMemText C s))
        rw [← ctl_unstalled (i := i) h] at hcases
        rcases hcases with hd | ⟨hd, -⟩ | ⟨hd, -⟩ | ⟨hd, -⟩
        case inr.inl => exact hd
        all_goals rw [hd] at hbit; exact absurd hbit (by decide)
      exact ⟨hd, exceptSignal_decoded h hd (by decide)⟩
  | ecall =>
      obtain ⟨hop, hf3, hf12⟩ := ht
      have hd : (ctl C i s).exceptSignal = 0b010#3 := by
        rw [ctl_unstalled h, hop, hf3, hf12]; rfl
      exact ⟨hd, exceptSignal_decoded h hd (by decide)⟩
  | ebreak =>
      obtain ⟨hop, hf3, hf12⟩ := ht
      have hd : (ctl C i s).exceptSignal = 0b001#3 := by
        rw [ctl_unstalled h, hop, hf3, hf12]; rfl
      exact ⟨hd, exceptSignal_decoded h hd (by decide)⟩
  | load =>
      obtain ⟨hop, hcross⟩ := ht
      rw [exceptSignal_eq, crosses_load h hop, decide_eq_true hcross, ctl_load h hop, loadDec_read]
      exact ⟨rfl, rfl⟩
  | store =>
      obtain ⟨hop, hcross⟩ := ht
      have hread : (ctl C i s).memRead.getLsbD 0 = false := by
        rw [ctl_store h hop]; exact BitVec.getLsbD_zero
      rw [exceptSignal_eq, crosses_store h hop, decide_eq_true hcross, hread, ctl_store h hop]
      exact ⟨rfl, rfl⟩

/-- And nothing else gets on it. -/
theorem exists_raises (h : coprocessorStall i s = false) (hne : exceptSignal C i s ≠ 0) :
    ∃ t, Raises s (instrMemText C s) t := by
  by_contra hnone
  have hcases := maindec_except_cases (opcode (instrMemText C s)) (funct3 (instrMemText C s))
    (funct12 (instrMemText C s))
  rw [← ctl_unstalled (i := i) h] at hcases
  have hd : (ctl C i s).exceptSignal = 0 := by
    rcases hcases with hd | ⟨-, ht⟩ | ⟨-, ht⟩ | ⟨-, ht⟩
    · exact hd
    · exact absurd ⟨.illegal, ht⟩ hnone
    · exact absurd ⟨.ecall, ht⟩ hnone
    · exact absurd ⟨.ebreak, ht⟩ hnone
  refine hne ?_
  rw [exceptSignal_eq, exceptBits_eq_zero]
  refine ⟨hd, Bool.eq_false_iff.mpr fun hstore => ?_, Bool.eq_false_iff.mpr fun hload => ?_⟩
  · obtain ⟨hc, hm⟩ := Bool.and_eq_true_iff.mp hstore
    rw [ctl_unstalled h] at hm
    have hop := maindec_memWrite hm
    rw [crosses_store h hop, decide_eq_true_eq] at hc
    exact hnone ⟨.store, hop, hc⟩
  · obtain ⟨hc, hm⟩ := Bool.and_eq_true_iff.mp hload
    rw [ctl_unstalled h] at hm
    have hop := maindec_memRead hm
    rw [crosses_load h hop, decide_eq_true_eq] at hc
    exact hnone ⟨.load, hop, hc⟩

/-- **Which traps are taken.** -/
theorem trapTrigger_iff_raises (h : coprocessorStall i s = false) (hm : mie s = true) :
    trapTrigger C i s ≠ 0 ↔ ∃ t, Raises s (instrMemText C s) t := by
  rw [trapTrigger_ne_zero_iff, and_iff_right hm]
  refine ⟨exists_raises h, fun ⟨t, ht⟩ => ?_⟩
  rw [(exceptSignal_raises h ht).2]
  exact t.signal_ne_zero

/-- **What they record.** -/
theorem posedge_mcause (hi : Unstalled i s) (hm : mie s = true) {t : Trap}
    (ht : Raises s (instrMemText C s) t) : (posedge C i s).mcause = t.recorded := by
  obtain ⟨hd, hsig⟩ := exceptSignal_raises hi.stall ht
  have hne : (trapTrigger C i s != 0) = true :=
    bne_iff_ne.mpr ((trapTrigger_iff_raises hi.stall hm).mpr ⟨t, ht⟩)
  have hcode : (posedge C i s).mcause = ExceptController.mcauseCode false (exceptSignal C i s)
      interruptSignal (breakSrc C i s) := by
    simp only [posedge, ExceptController.mcauseNext, exceptCSREnable_eq, flopre, flopreInit,
      hi.reset, hne, Bool.false_eq_true, if_false, if_true]
  rw [hcode, hsig, breakSrc_eq, hd]
  exact t.mcauseCode_signal

/-! ## Causes -/

/-- What the cycle from `s` to `s'` owes to the trap unit. -/
structure TrapsRight (C : Chip) (i : Inputs) (s s' : State) : Prop where
  taken : mie s = true → (trapTrigger C i s ≠ 0 ↔ ∃ t, Raises s (instrMemText C s) t)
  mepc : mie s = true → ∀ t, Raises s (instrMemText C s) t → s'.mepc = s.pc
  mcause : mie s = true → ∀ t, Raises s (instrMemText C s) t →
    ∀ c, t.cause s.mode = some c → s'.mcause = c
  fallThrough : mie s = true → ∀ t, Raises s (instrMemText C s) t → s'.mcause ≠ 0b11111
  /-- Without interrupts only MRET and the CSR instructions may touch the trap unit. -/
  masked : mie s = false →
    ¬ (opcode (instrMemText C s) = 0b1110011#7 ∧
      (funct3 (instrMemText C s) = 0b000#3 ∧ funct12 (instrMemText C s) = 0x302#12 ∨
        (funct3 (instrMemText C s)).extractLsb' 0 2 ≠ 0)) →
    s'.mepc = s.mepc ∧ s'.mcause = s.mcause ∧ s'.mode = s.mode

/-- An `ecall` with interrupts enabled, out of mode S or M. -/
def EcallAbove (s : State) (w : BitVec 32) : Prop :=
  mie s = true ∧ Raises s w .ecall ∧ (s.mode = 0b01#2 ∨ s.mode = 0b11#2)

/--
**Trap causes.** Traps are taken, and recorded, as they should be exactly if the
instruction is no `ecall` from above mode U.
-/
theorem trap_cause_iff (hi : Unstalled i s) :
    TrapsRight C i s (cycle C i s) ↔ ¬ EcallAbove s (instrMemText C s) := by
  rw [cycle_eq_posedge hi.reset]
  constructor
  · intro h hmret
    obtain ⟨hm, ht, hmode⟩ := hmret
    have hright := h.mcause hm .ecall ht
    rw [posedge_mcause hi hm ht] at hright
    exact (Trap.recorded_iff .ecall s.mode).mp hright ⟨rfl, hmode⟩
  · intro h
    refine ⟨fun hm => trapTrigger_iff_raises hi.stall hm, fun hm t ht => ?_, fun hm t ht => ?_,
      fun hm t ht => ?_, fun hm hother => ?_⟩
    · exact (posedge_trap hi.reset ((trapTrigger_iff_raises hi.stall hm).mpr ⟨t, ht⟩)).2.2
    · rw [posedge_mcause hi hm ht, Trap.recorded_iff]
      intro hecall
      obtain ⟨rfl, hmode⟩ := hecall
      exact h ⟨hm, ht, hmode⟩
    · rw [posedge_mcause hi hm ht]
      cases t <;> decide
    · have htrap : trapTrigger C i s = 0 := by
        rw [trapTrigger_eq, hm, if_neg Bool.false_ne_true]
      have hret : (ctl C i s).trapReturn = false := by
        rw [ctl_unstalled hi.stall, Bool.eq_false_iff]
        intro hret
        obtain ⟨hop, hf3, hf12⟩ := maindec_trapReturn.mp hret
        exact hother ⟨hop, .inl ⟨hf3, hf12⟩⟩
      obtain ⟨hmode, hcause, hepc, -⟩ := posedge_noTrap hi.reset htrap hret
      exact ⟨hepc, hcause, hmode⟩

/-- `csrrwi x0, mstatus, 8`, then a word of zeros. -/
def zeroWordTrap : Chip := Chip.ofProgram [0x30045073#32, 0x00000000#32]

/-- A word of zeros is no instruction. -/
theorem trap_cause_zero :
    TrapsRight zeroWordTrap Inputs.idle
      (run zeroWordTrap [Inputs.idle] (State.released (fun _ => 0) 0))
      (cycle zeroWordTrap Inputs.idle
        (run zeroWordTrap [Inputs.idle] (State.released (fun _ => 0) 0))) :=
  (trap_cause_iff ⟨rfl, by decide +kernel⟩).mpr fun h => absurd h.2.1.1 (by decide +kernel)

/-- `csrrwi x0, mstatus, 8`, then `ecall`: out of mode M, with cause 8. -/
theorem trap_cause_ecall :
    ¬ ∀ (C : Chip) (i : Inputs) (s : State), Reachable C s → Unstalled i s →
      TrapsRight C i s (cycle C i s) := by
  intro h
  have hright := h (Chip.ofProgram [0x30045073#32, 0x00000073#32]) Inputs.idle
    (run (Chip.ofProgram [0x30045073#32, 0x00000073#32]) [Inputs.idle]
      (State.released (fun _ => 0) 0))
    ((reachable_released _ _ _).run _) ⟨rfl, by decide +kernel⟩
  have hcause := hright.mcause (by decide +kernel) .ecall
    ⟨by decide +kernel, by decide +kernel, by decide +kernel⟩ 11 (by decide +kernel)
  revert hcause
  decide +kernel

end Core

end PassiFlo
