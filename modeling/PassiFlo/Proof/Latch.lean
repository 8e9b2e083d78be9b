import PassiFlo.Proof.LoadStore

/-!
# The latch of the data RAM

The RAM shows the word of its last read. That latch is the only state of the core that
no instruction names, and only loads look at it: for any other instruction two cores
that differ in the latch stay equal but for the latch, and a load forgets the old one.
-/

namespace PassiFlo

namespace Core

variable {C : Chip} {i : Inputs} {s t : State}

/-- The state with other registers and another value in the latch of the RAM. -/
def variant (s : State) (regs : BitVec 5 → BitVec 64) (latch : BitVec 64) : State :=
  { s with regs := regs, ram := { s.ram with latch := latch } }

/-- The states differ at most in the latch of the RAM. -/
def SameButLatch (s t : State) : Prop := ∃ latch, t = variant s s.regs latch

/-! ## Instructions other than loads -/

/-- Only a load looks at the RAM, however the RAM answers. -/
theorem posedge_not_load {q : Ram → RamPort → BitVec 64} (hram : C.Altsyncram)
    (h : coprocessorStall i s = false) (hop : opcode (instrMemText C s) ≠ 0b0000011#7)
    (hst : SameButLatch s t) :
    SameButLatch (posedge C i s) (posedge { C with ramQ := q } i t) := by
  obtain ⟨latch, rfl⟩ := hst
  have hregs : (posedge { C with ramQ := q } i (variant s s.regs latch)).regs =
      (posedge C i s).regs := by
    rw [posedge_direct_regs h hop]
    exact posedge_direct_regs (C := { C with ramQ := q }) (s := variant s s.regs latch) h hop
  have hwords : (C.ramClock (variant s s.regs latch).ram (dmemPort C i s)).words =
      (C.ramClock s.ram (dmemPort C i s)).words := hram.words_congr rfl
  refine ⟨(C.ramClock (variant s s.regs latch).ram (dmemPort C i s)).latch, ?_⟩
  exact State.ext rfl hregs (Ram.ext hwords rfl) rfl rfl rfl rfl rfl rfl rfl rfl

/-- An instruction other than a load holds the latch. -/
theorem latch_not_load (hram : C.Altsyncram) (h : coprocessorStall i s = false)
    (hop : opcode (instrMemText C s) ≠ 0b0000011#7) :
    (posedge C i s).ram.latch = s.ram.latch := by
  refine hram.holds _ _ ?_
  rw [dmemPort_unstalled h, ctl_unstalled h, Bool.eq_false_iff]
  exact fun hr => hop (maindec_memRead hr)

/-! ## Loads -/

/-- A load leaves the words alone and latches the one it addresses. -/
theorem ramClock_load {q : Ram → RamPort → BitVec 64} (hram : AltsyncramSpec C.ramClock q)
    (h : coprocessorStall i s = false) (hop : opcode (instrMemText C s) = 0b0000011#7) {r : Ram}
    (hr : r.words = s.ram.words) :
    C.ramClock r (dmemPort C i s) = ⟨s.ram.words, loadWord C s⟩ := by
  obtain ⟨hrden, hwren, haddr⟩ := dmemPort_load (C := C) h hop
  have hwords : (C.ramClock r (dmemPort C i s)).words = s.ram.words :=
    (hram.words_of_not_wren hwren).trans hr
  have hlatch := hram.reads r _ hrden
  rw [hwords, haddr] at hlatch
  exact Ram.ext hwords hlatch

/-- After a load the latch a core had before only shows in `rd`. -/
theorem posedge_load_variant (hram : C.Altsyncram) (h : coprocessorStall i s = false)
    (hop : opcode (instrMemText C s) = 0b0000011#7) (latch : BitVec 64) :
    posedge C i (variant s s.regs latch) = { posedge C i s with
      regs := regfileNext true (rd (instrMemText C s)) (loadMask C s latch) s.regs } := by
  have hregs : (posedge C i (variant s s.regs latch)).regs =
      regfileNext true (rd (instrMemText C s)) (loadMask C s latch) s.regs := by
    rw [posedge_load_regs (C := C) (s := variant s s.regs latch) h hop, loadValue_eq hram]
    rfl
  have hclock : (posedge C i (variant s s.regs latch)).ram = (posedge C i s).ram :=
    (ramClock_load (r := (variant s s.regs latch).ram) hram h hop rfl).trans
      (ramClock_load hram h hop rfl).symm
  exact State.ext rfl hregs hclock rfl rfl rfl rfl rfl rfl rfl rfl

end Core

end PassiFlo
