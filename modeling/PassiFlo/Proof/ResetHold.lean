import PassiFlo.Proof.Latch

/-!
# Holding the reset

The flip-flops are held at their reset values, but the register file and the data RAM
have no reset: on every clock edge they execute the instruction at address 0. So a
reset is clean exactly when that instruction, executed on the reset state, changes
nothing; two edges are enough to find out, because a load shows the RAM latch first
and the memory afterwards.
-/

namespace PassiFlo

open Clocked

namespace Core

variable {C : Chip} {s : State}

/-- The state the asynchronous resets put the core in. -/
def resetState (s : State) : State := settle Inputs.resetOnly s

/-- Registers, memory and the run from release do not depend on how long the reset is held. -/
def CleanReset (C : Chip) (s : State) : Prop :=
  ∀ k, 1 ≤ k →
    (run C (List.replicate k Inputs.resetOnly) s).regs = s.regs ∧
    (run C (List.replicate k Inputs.resetOnly) s).ram.words = s.ram.words ∧
    ∀ is, run C (List.replicate k Inputs.resetOnly ++ is) s = run C (Inputs.resetOnly :: is) s

/--
The instruction at address 0 has no effect on the reset state, neither with the RAM
output as it is nor with the word the instruction itself may have latched. Its effect is
the core's own: the value its execute stage and RAM output make, not that of the
instruction set.
-/
structure HarmlessReset (C : Chip) (s : State) : Prop where
  first : NoEffect C Inputs.resetOnly (resetState s)
  again : NoEffect C Inputs.resetOnly (variant (resetState s) s.regs (loadWord C (resetState s)))

/-- Nothing stalls the core during a reset. -/
theorem resetOnly_stall : coprocessorStall Inputs.resetOnly s = false := stall_of_control rfl

/-- One clock edge under reset. -/
theorem cycle_reset : cycle C Inputs.resetOnly s = { resetState s with
    regs := (posedge C Inputs.resetOnly (resetState s)).regs
    ram := (posedge C Inputs.resetOnly (resetState s)).ram } := by
  have hstop : Inputs.resetOnly.stopAt = false := by decide
  have hflag : (resetState s).cycleStallFlag = 0 := by
    simp only [resetState, settle, hstop, Bool.false_eq_true, if_false]
  have hflag' : (posedge C Inputs.resetOnly (resetState s)).cycleStallFlag = 0 := by
    simp only [posedge, hstop, flopre, flopreInit, Bool.not_false, if_true]
  exact State.ext rfl rfl rfl rfl rfl rfl rfl rfl rfl (hflag'.trans hflag.symm) rfl

/-- An edge without effect only moves the latch. -/
theorem cycle_reset_noEffect (hram : C.Altsyncram)
    (h : NoEffect C Inputs.resetOnly (resetState s)) :
    cycle C Inputs.resetOnly s =
      variant (resetState s) s.regs (posedge C Inputs.resetOnly (resetState s)).ram.latch := by
  obtain ⟨hregs, hwords⟩ := (noEffect_iff hram resetOnly_stall).mpr h
  rw [cycle_reset]
  exact State.ext rfl hregs (Ram.ext hwords rfl) rfl rfl rfl rfl rfl rfl rfl rfl

/-- The reset state is settled. -/
theorem resetState_variant (x : BitVec 64) :
    resetState (variant (resetState s) s.regs x) = variant (resetState s) s.regs x := by
  have hstop : Inputs.resetOnly.stopAt = false := by decide
  refine State.ext rfl rfl rfl rfl rfl rfl rfl rfl rfl ?_ rfl
  simp only [resetState, variant, settle, hstop, Bool.false_eq_true, if_false]

/-- The latch after one edge: a load has moved it, anything else has not. -/
theorem latch_reset (hram : C.Altsyncram) :
    (posedge C Inputs.resetOnly (resetState s)).ram.latch =
      if opcode (instrMemText C (resetState s)) = 0b0000011#7 then loadWord C (resetState s)
      else s.ram.latch := by
  split_ifs with hop
  · exact congrArg Ram.latch (ramClock_load hram resetOnly_stall hop rfl)
  · exact latch_not_load hram resetOnly_stall hop

/-- Without a load, the effect does not depend on the latch. -/
theorem noEffect_variant {i : Inputs} {t : State} (hop : opcode (instrMemText C t) ≠ 0b0000011#7)
    (x : BitVec 64) : NoEffect C i (variant t t.regs x) ↔ NoEffect C i t :=
  ⟨fun h => ⟨fun hl => absurd hl hop, h.store, h.result⟩,
    fun h => ⟨fun hl => absurd hl hop, h.store, h.result⟩⟩

/-- The second edge: what it does depends on the latch the first one left. -/
theorem noEffect_second (hram : C.Altsyncram) :
    NoEffect C Inputs.resetOnly (variant (resetState s) s.regs
        (posedge C Inputs.resetOnly (resetState s)).ram.latch) ↔
      NoEffect C Inputs.resetOnly
        (variant (resetState s) s.regs (loadWord C (resetState s))) := by
  rw [latch_reset hram]
  split_ifs with hop
  · rfl
  · exact (noEffect_variant hop _).trans (noEffect_variant hop _).symm

/-- Two harmless edges, and the state no longer moves. -/
theorem cycle_reset_fixed (hram : C.Altsyncram) (h : HarmlessReset C s) :
    cycle C Inputs.resetOnly (cycle C Inputs.resetOnly s) = cycle C Inputs.resetOnly s := by
  have hfirst := cycle_reset_noEffect hram h.first
  have hagain := (noEffect_second hram).mpr h.again
  have hlatch := latch_reset (s := s) hram
  generalize (posedge C Inputs.resetOnly (resetState s)).ram.latch = x at *
  have hsettled := resetState_variant (s := s) x
  rw [hfirst, cycle_reset_noEffect hram (by rw [hsettled]; exact hagain), latch_reset hram,
    hsettled]
  split_ifs with hop
  · -- the second edge latches the same word again
    have hword : x = loadWord C (resetState s) := hlatch.trans (if_pos hop)
    rw [hword]
    rfl
  · rfl

/--
**Reset is clean** exactly when the instruction at address 0 is harmless.
-/
theorem cleanReset_iff (hram : C.Altsyncram) : CleanReset C s ↔ HarmlessReset C s := by
  constructor
  · intro h
    obtain ⟨hregs1, hwords1, -⟩ := h 1 (Nat.le_refl 1)
    obtain ⟨hregs2, hwords2, -⟩ := h 2 (by decide)
    have hfirst : NoEffect C Inputs.resetOnly (resetState s) :=
      (noEffect_iff hram resetOnly_stall).mp ⟨hregs1, hwords1⟩
    refine ⟨hfirst, (noEffect_second hram).mp ((noEffect_iff hram resetOnly_stall).mp ?_)⟩
    have hrun : run C (List.replicate 2 Inputs.resetOnly) s =
        cycle C Inputs.resetOnly (cycle C Inputs.resetOnly s) := rfl
    rw [hrun, cycle_reset_noEffect hram hfirst, cycle_reset, resetState_variant] at hregs2 hwords2
    exact ⟨hregs2, hwords2⟩
  · intro h k hk
    obtain ⟨k, rfl⟩ : ∃ j, k = j + 1 := ⟨k - 1, by omega⟩
    have hrun : run C (List.replicate (k + 1) Inputs.resetOnly) s = cycle C Inputs.resetOnly s :=
      run_fixed (cycle_reset_fixed hram h) k
    have hfirst := cycle_reset_noEffect hram h.first
    refine ⟨?_, ?_, fun is => ?_⟩
    · rw [hrun, hfirst]; rfl
    · rw [hrun, hfirst]; rfl
    · exact (run_append _ _ _ _).trans (congrArg _ hrun)

/-- With `addi x1, x1, 1` at address 0, every clock edge of the reset counts. -/
theorem reset_counts :
    ¬ ∀ (C : Chip) (s : State), C.Altsyncram → CleanReset C s := by
  intro h
  have hregs := (h (Chip.ofProgram [0x00108093#32]) (State.released (fun _ => 0) 0)
    (Chip.ofProgram_altsyncram _) 1 (Nat.le_refl 1)).1
  have h1 := congrFun hregs 1
  revert h1
  decide +kernel

/-- With `addi x0, x0, 0` there, it is clean. -/
theorem cleanReset_nop :
    CleanReset (Chip.ofProgram [0x00000013#32]) (State.released (fun _ => 0) 0) := by
  refine (cleanReset_iff (Chip.ofProgram_altsyncram _)).mpr ⟨?_, ?_⟩
  all_goals exact ⟨fun _ => .inl (by decide +kernel), fun h => absurd h (by decide +kernel),
    fun _ _ => .inl (by decide +kernel)⟩

end Core

end PassiFlo
