import PassiFlo.Proof.LoadStore
import PassiFlo.Proof.Status

/-!
# How precise traps are

An exception raised by the decoder leaves everything but the trap state alone. A
misaligned access does not: the register write of a load and the byte enables of a
store come straight from the decoder, and the trap of the same cycle does not gate
them. So the trap is precise exactly when what leaks was there already.
-/

namespace PassiFlo

open Lanes Clocked

namespace Core

variable {C : Chip} {i : Inputs} {s : State}

/-- The edge from `s` to `s'` changed only what trap entry is allowed to change. -/
structure PreciseTrap (s s' : State) : Prop where
  pc : s'.pc = s.mtvec &&& ~~~3#64
  regs : s'.regs = s.regs
  words : s'.ram.words = s.ram.words
  mstatus : s'.mstatus &&& ~~~0x1888#64 = s.mstatus &&& ~~~0x1888#64
  mtvec : s'.mtvec = s.mtvec
  cycleStallFlag : s'.cycleStallFlag = s.cycleStallFlag

/--
What a misaligned access leaks is already there: the masked RAM output in `rd`, or the
low bytes of `rs2` in the part of the addressed word that the store reaches.
-/
structure HarmlessTrap (C : Chip) (s : State) : Prop where
  load : opcode (instrMemText C s) = 0b0000011#7 → rd (instrMemText C s) = 0 ∨
    loadMask C s s.ram.latch = s.regs (rd (instrMemText C s))
  store : opcode (instrMemText C s) = 0b0100011#7 → ∀ k < 8,
    ((storeAddr s (instrMemText C s)).extractLsb' 0 3).toNat ≤ k →
      byte (s.ram.words ((storeAddr s (instrMemText C s)).extractLsb' 3 12)) k =
        byte (s.regs (rs2 (instrMemText C s)))
          (k - ((storeAddr s (instrMemText C s)).extractLsb' 0 3).toNat)

/-- Clearing the two low bits is what the trap vector wiring does. -/
theorem slice_append_zero (x : BitVec 64) : x.extractLsb' 2 62 ++ 0#2 = x &&& ~~~3#64 := by
  refine BitVec.eq_of_getLsbD_eq ?_
  intro k hk
  rw [BitVec.getLsbD_append, BitVec.getLsbD_and, BitVec.getLsbD_not]
  by_cases h : k < 2
  · interval_cases k <;> simp
  · have h3 : (3#64).getLsbD k = false := by
      rw [← BitVec.testBit_toNat]
      exact Nat.testBit_lt_two_pow (Nat.lt_of_lt_of_le (by decide : 3 < 2 ^ 2)
        (Nat.pow_le_pow_right (by decide) (by omega)))
    rw [if_neg h, BitVec.getLsbD_extractLsb', h3]
    simp [hk, show k - 2 < 62 by omega, show 2 + (k - 2) = k by omega]

/-- Everything else being as it should, precision is about registers and memory. -/
theorem preciseTrap_iff_frame (hi : Unstalled i s) (ht : trapTrigger C i s ≠ 0)
    (hcsr : (ctl C i s).csrWriteEnable = false) :
    PreciseTrap (settle i s) (cycle C i s) ↔
      (posedge C i s).regs = s.regs ∧ (posedge C i s).ram.words = s.ram.words := by
  rw [cycle_eq_posedge hi.reset]
  constructor
  · exact fun h => ⟨h.regs, h.words⟩
  · intro hframe
    obtain ⟨hregs, hwords⟩ := hframe
    have hdb := (stall_eq_false_iff.mp hi.stall).2.1
    have hmtvec : (settle i s).mtvec = s.mtvec := by
      simp only [settle, hi.reset, Bool.false_eq_true, if_false]
    have hmstatus : (settle i s).mstatus = s.mstatus := by
      simp only [settle, hi.reset, Bool.false_eq_true, if_false]
    refine ⟨?_, hregs, hwords, ?_, ?_, ?_⟩
    · rw [posedge_pc hi, if_pos ht, slice_append_zero, hmtvec]
    · rw [(posedge_trap hi.reset ht).2.1, hmstatus]
      exact mstatusMerge_and_not_mask _ _
    · rw [hmtvec]
      simp only [posedge, ExceptController.mtvecNext, csrWriteEnable, hcsr, hi.reset, flopre,
        flopreInit, Bool.and_false, Bool.false_eq_true, if_false]
    · simp only [posedge, settle, hdb, flopre, flopreInit, Bool.and_false, Bool.false_and,
        Bool.false_eq_true, if_false]
      cases i.stopAt <;> rfl

/-- An instruction that traps in `except_E` runs past the end of its word. -/
theorem trap_spill (hi : Unstalled i s) (ht : trapTrigger C i s ≠ 0)
    (hop : opcode (instrMemText C s) = 0b0100011#7) :
    8 < ((storeAddr s (instrMemText C s)).extractLsb' 0 3).toNat +
      accessBytes (storeSize (funct3 (instrMemText C s))) := by
  have hexc := (trapTrigger_ne_zero_iff.mp ht).2
  have hrow := ctl_store hi.stall hop
  have hc : crosses C i s = true := by
    rw [exceptSignal_eq, ne_eq, exceptBits_eq_zero, hrow] at hexc
    by_contra hne
    rw [Bool.eq_false_iff.mpr hne] at hexc
    exact hexc ⟨rfl, rfl, rfl⟩
  rw [crosses_store hi.stall hop] at hc
  exact of_decide_eq_true hc

/-- Any other instruction traps in the decoder, which then asserts nothing. -/
theorem trap_inert (hi : Unstalled i s) (ht : trapTrigger C i s ≠ 0)
    (hload : opcode (instrMemText C s) ≠ 0b0000011#7)
    (hstore : opcode (instrMemText C s) ≠ 0b0100011#7) : (ctl C i s).toMainDec.Inert := by
  have hexc := (trapTrigger_ne_zero_iff.mp ht).2
  have hd : (maindec false (opcode (instrMemText C s)) (funct3 (instrMemText C s))
      (funct12 (instrMemText C s))).exceptSignal ≠ 0 := by
    intro hd
    rw [exceptSignal_eq, ne_eq, exceptBits_eq_zero, ctl_unstalled hi.stall] at hexc
    refine hexc ⟨hd, ?_, ?_⟩
    · rw [Bool.eq_false_iff.mpr fun hw => hstore (maindec_memWrite hw), Bool.and_false]
    · rw [Bool.eq_false_iff.mpr fun hw => hload (maindec_memRead hw), Bool.and_false]
  rw [ctl_unstalled hi.stall]
  exact maindec_except_inert hd

/-- A trapped instruction writes no CSR. -/
theorem trap_csrWriteEnable (hi : Unstalled i s) (ht : trapTrigger C i s ≠ 0) :
    (ctl C i s).csrWriteEnable = false := by
  by_cases hload : opcode (instrMemText C s) = 0b0000011#7
  · rw [ctl_load hi.stall hload]; rfl
  by_cases hstore : opcode (instrMemText C s) = 0b0100011#7
  · rw [ctl_store hi.stall hstore]; rfl
  · exact (trap_inert hi ht hload hstore).csrWriteEnable

/-- Under a trap only the two leaks are left of what an instruction can do. -/
theorem noEffect_trap (hi : Unstalled i s) (ht : trapTrigger C i s ≠ 0) :
    NoEffect C i s ↔ HarmlessTrap C s := by
  constructor
  · exact fun h => ⟨h.load, fun hop k hk ho =>
      h.store hop k hk ho (Nat.lt_trans hk (trap_spill hi ht hop))⟩
  · refine fun h => ⟨h.load, fun hop k hk ho _ => h.store hop k hk ho, fun hload hw => ?_⟩
    by_cases hstore : opcode (instrMemText C s) = 0b0100011#7
    · rw [ctl_store hi.stall hstore] at hw; exact absurd hw Bool.false_ne_true
    · rw [(trap_inert hi ht hload hstore).regWrite] at hw; exact absurd hw Bool.false_ne_true

/--
**Precision of one trap.** A trap taken in `s` changes nothing it should not exactly when
the instruction is no misaligned access or its leak is harmless.
-/
theorem preciseTrap_iff (hram : C.Altsyncram) (hi : Unstalled i s)
    (ht : trapTrigger C i s ≠ 0) :
    PreciseTrap (settle i s) (cycle C i s) ↔ HarmlessTrap C s := by
  rw [preciseTrap_iff_frame hi ht (trap_csrWriteEnable hi ht), noEffect_iff hram hi.stall,
    noEffect_trap hi ht]

/-- The trap of this cycle, if it takes one, is precise. -/
def TrapsPrecisely (C : Chip) (i : Inputs) (s : State) : Prop :=
  Unstalled i s → trapTrigger C i s ≠ 0 → PreciseTrap (settle i s) (cycle C i s)

/-- The trap of this cycle, if it takes one, leaks nothing that was not there. -/
def TrapsHarmlessly (C : Chip) (i : Inputs) (s : State) : Prop :=
  Unstalled i s → trapTrigger C i s ≠ 0 → HarmlessTrap C s

/--
**Precision of traps.** The traps of a run are precise exactly when none of them is a
misaligned access with a leak that shows.
-/
theorem precise_traps_iff (hram : C.Altsyncram) (is : List Inputs) (s : State) :
    Along C (TrapsPrecisely C) is s ↔ Along C (TrapsHarmlessly C) is s := by
  have hcycle : ∀ i t, TrapsPrecisely C i t ↔ TrapsHarmlessly C i t := fun i t =>
    forall_congr' fun hi => forall_congr' fun ht => preciseTrap_iff hram hi ht
  exact ⟨along_mono (fun i t h => (hcycle i t).mp h) is s,
    along_mono (fun i t h => (hcycle i t).mpr h) is s⟩

/-- `csrrwi x0, mstatus, 8` and the misaligned `sw x0, 5(x0)`, over a memory of ones. -/
def crossingStore : Chip := Chip.ofProgram [0x30045073#32, 0x000022a3#32]

/-- The state of `crossingStore` at its store. -/
def atCrossingStore : State :=
  cycle crossingStore Inputs.idle (State.released (fun _ => 0xffffffffffffffff#64) 0)

/-- The trap of `crossingStore` zeroes three bytes of memory. -/
theorem imprecise_store :
    ¬ ∀ (C : Chip) (i : Inputs) (s : State), C.Altsyncram → Reachable C s → Unstalled i s →
      mie s = true → trapTrigger C i s ≠ 0 → PreciseTrap (settle i s) (cycle C i s) := by
  intro h
  have hp := h crossingStore Inputs.idle atCrossingStore (Chip.ofProgram_altsyncram _)
    ((reachable_released _ _ _).cycle _) ⟨rfl, by decide +kernel⟩ (by decide +kernel)
    (by decide +kernel)
  have hw : (cycle crossingStore Inputs.idle atCrossingStore).ram.words 0 =
      (settle Inputs.idle atCrossingStore).ram.words 0 := congrFun hp.words 0
  revert hw
  decide +kernel

/-- `csrrwi x0, mstatus, 8` and `ecall`. -/
def ecallTwo : Chip := Chip.ofProgram [0x30045073#32, 0x00000073#32]

/-- The trap of `ecallTwo` is precise. -/
theorem precise_ecall :
    Along ecallTwo (TrapsPrecisely ecallTwo) [Inputs.idle, Inputs.idle]
      (State.released (fun _ => 0) 0) := by
  refine (precise_traps_iff (Chip.ofProgram_altsyncram _) _ _).mpr ⟨fun _ ht => ?_, fun _ _ => ?_,
    trivial⟩
  · -- the first cycle still has MIE clear
    exact absurd (by decide +kernel) ht
  · exact ⟨fun h => absurd h (by decide +kernel), fun h => absurd h (by decide +kernel)⟩

end Core

end PassiFlo
