import PassiFlo.Proof.Latch

/-!
# Doubled loads

The data RAM answers one cycle late, so a load writes back the word addressed by the
load before it. The assembler script therefore emits every load twice. Between the
two copies the destination holds a stale value and the latch runs ahead of a memory
that answers at once; after the second copy the two agree again, and in between
nothing but the second copy looks.
-/

namespace PassiFlo

open Clocked

/-- The same chip with a data RAM that answers in the cycle it is asked. -/
def Chip.combinational (C : Chip) : Chip := { C with ramQ := fun r p => r.words p.address }

/-- Where the PC points in the instruction ROM. -/
def romIndex (s : State) : BitVec 10 := s.pc.extractLsb' 2 10

/-- Every load of the program is one of a pair, and `first` marks the first copies. -/
structure DoubledLoads (C : Chip) (first : BitVec 10 → Prop) : Prop where
  /-- Only loads are marked. -/
  load : ∀ a, first a → opcode (C.rom a) = 0b0000011#7
  /-- The next word is the same again. -/
  copy : ∀ a, first a → C.rom (a + 1) = C.rom a
  /-- The first copy does not change the address of the second. -/
  rd_ne_rs1 : ∀ a, first a → rd (C.rom a) ≠ rs1 (C.rom a)
  /-- Every load is a first or a second copy. -/
  cover : ∀ a, opcode (C.rom a) = 0b0000011#7 → first a ∨ first (a - 1)
  /-- No word is both. -/
  apart : ∀ a, first a → ¬ first (a + 1)

/-- The PC is at the second copy of a load. -/
def Inside (first : BitVec 10 → Prop) (s : State) : Prop := first (romIndex s - 1)

instance (first : BitVec 10 → Prop) [DecidablePred first] (s : State) :
    Decidable (Inside first s) :=
  inferInstanceAs (Decidable (first _))

namespace Core

variable {C : Chip} {i : Inputs} {s t : State} {first : BitVec 10 → Prop}

/-- A cycle of a doubled program: no stall, no crossing load, pairs entered at the front. -/
structure PairedCycle (C : Chip) (first : BitVec 10 → Prop) (i : Inputs) (s : State) : Prop where
  unstalled : Unstalled i s
  aligned : opcode (instrMemText C s) = 0b0000011#7 →
    ((loadAddr s (instrMemText C s)).extractLsb' 0 3).toNat +
      accessBytes (loadSize (funct3 (instrMemText C s))) ≤ 8
  entry : Inside first (cycle C i s) → romIndex (cycle C i s) = romIndex s + 1

/-- The simulation between the chip and its combinational version. -/
inductive Paired (C : Chip) (first : BitVec 10 → Prop) (s : State) : State → Prop
  /-- Outside a pair the two cores agree. -/
  | outside {t : State} : ¬ Inside first s → SameButLatch s t → Paired C first s t
  /-- At a second copy `rd` may differ, and the latch holds the word to come. -/
  | inside {regs : BitVec 5 → BitVec 64} {latch : BitVec 64} : Inside first s →
      (∀ r, r ≠ rd (instrMemText C s) ∨ r = 0 → regs r = s.regs r) →
      s.ram.latch = loadWord C s →
      Paired C first s (variant s regs latch)

/-! ## One load, on both chips -/

/-- The ROM is read in order. -/
theorem romIndex_next (h : t.pc = s.pc + 4) : romIndex t = romIndex s + 1 := by
  have h4 : (4 : BitVec 64).toNat = 4 := rfl
  have h1 : (1 : BitVec 10).toNat = 1 := rfl
  refine BitVec.eq_of_toNat_eq ?_
  simp only [romIndex, h, BitVec.extractLsb'_toNat, BitVec.toNat_add, Nat.shiftRight_eq_div_pow, h4,
    h1]
  omega

/-- The two copies of a load write the same register. -/
theorem regfileNext_congr {wa : BitVec 5} {regs regs' : BitVec 5 → BitVec 64}
    (h : ∀ r, r ≠ wa ∨ r = 0 → regs' r = regs r) (wd : BitVec 64) :
    regfileNext true wa wd regs' = regfileNext true wa wd regs := by
  funext r
  by_cases hr : r ≠ wa ∨ r = 0
  · rw [regfileNext_of_ne true hr, regfileNext_of_ne true hr, h r hr]
  · obtain ⟨hwa, h0⟩ : r = wa ∧ r ≠ 0 := by simpa using hr
    subst hwa
    have hwe : (true && r != 0) = true := by simpa using h0
    rw [regfileNext, regfileNext, if_pos hwe, if_pos hwe, Function.update_self,
      Function.update_self]

/-- **A load on the two chips.** Only the value written differs. -/
theorem posedge_load_pair (hram : C.Altsyncram) (hi : Unstalled i s)
    (hop : opcode (instrMemText C s) = 0b0000011#7)
    (hn : ((loadAddr s (instrMemText C s)).extractLsb' 0 3).toNat +
      accessBytes (loadSize (funct3 (instrMemText C s))) ≤ 8)
    {regs : BitVec 5 → BitVec 64} (latch : BitVec 64)
    (hrs : regs (rs1 (instrMemText C s)) = s.regs (rs1 (instrMemText C s))) :
    posedge C i s = { s with
      pc := s.pc + 4
      regs := regfileNext true (rd (instrMemText C s)) (loadValue C i s) s.regs
      ram := ⟨s.ram.words, loadWord C s⟩
      cycles := s.cycles + 1
      cycleStallFlag := flopre (!i.stopAt) false i.dataOut s.cycleStallFlag } ∧
    posedge C.combinational i (variant s regs latch) = variant (posedge C i s)
      (regfileNext true (rd (instrMemText C s)) (loadMask C s (loadWord C s)) regs)
      (loadWord C s) := by
  have hi' : Unstalled i (variant s regs latch) := ⟨hi.reset, hi.stall⟩
  have haddr : loadAddr (variant s regs latch)
      (instrMemText C.combinational (variant s regs latch)) =
        loadAddr s (instrMemText C s) := congrArg (· + iImm (instrMemText C s)) hrs
  have hword : loadWord C.combinational (variant s regs latch) = loadWord C s :=
    congrArg (fun a : BitVec 64 => s.ram.words (a.extractLsb' 3 12)) haddr
  have hop' : opcode (instrMemText C.combinational (variant s regs latch)) = 0b0000011#7 := hop
  have hc' : crosses C.combinational i (variant s regs latch) = false :=
    (crosses_load hi'.stall hop').trans (decide_eq_false (by rw [haddr]; exact Nat.not_lt.mpr hn))
  have hvalue : loadValue C.combinational i (variant s regs latch) =
      loadMask C s (loadWord C s) := by
    have hport := (dmemPort_load (C := C.combinational) hi'.stall hop').2.2
    rw [haddr] at hport
    have hread : readData C.combinational i (variant s regs latch) = loadWord C s :=
      congrArg s.ram.words hport
    rw [loadValue, hread, haddr]
    rfl
  have hc : crosses C i s = false :=
    (crosses_load hi.stall hop).trans (decide_eq_false (Nat.not_lt.mpr hn))
  have hpos : posedge C i s = _ := posedge_load hi hop hc
  have hpos' := posedge_load hi' hop' hc'
  rw [ramClock_load hram hi.stall hop rfl] at hpos
  rw [ramClock_load (C := C.combinational) (q := C.ramQ) hram hi'.stall hop' rfl, hvalue,
    hword] at hpos'
  refine ⟨hpos, ?_⟩
  rw [hpos, hpos']
  rfl

/-! ## The simulation -/

/-- **The simulation step.** -/
theorem paired_step (hram : C.Altsyncram) (hd : DoubledLoads C first) (hc : PairedCycle C first i s)
    (h : Paired C first s t) : Paired C first (cycle C i s) (cycle C.combinational i t) := by
  have hi := hc.unstalled
  have hentry := hc.entry
  rw [cycle_eq_posedge hi.reset] at hentry ⊢
  rw [cycle_eq_posedge hi.reset]
  -- one step further the index comes back to the current one
  have hback : romIndex (posedge C i s) = romIndex s + 1 →
      romIndex (posedge C i s) - 1 = romIndex s :=
    fun h => by rw [h, BitVec.add_sub_cancel]
  cases h with
  | outside hout hsame =>
      by_cases hop : opcode (instrMemText C s) = 0b0000011#7
      · -- a load outside a pair is a first copy
        have hfirst : first (romIndex s) := (hd.cover _ hop).resolve_right hout
        obtain ⟨latch, rfl⟩ := hsame
        obtain ⟨hpos, hpos'⟩ := posedge_load_pair hram hi hop (hc.aligned hop) latch rfl
        have hnext : romIndex (posedge C i s) = romIndex s + 1 := romIndex_next (by rw [hpos])
        have hinstr : instrMemText C (posedge C i s) = instrMemText C s :=
          (congrArg C.rom hnext).trans (hd.copy _ hfirst)
        have hne : rs1 (instrMemText C s) ≠ rd (instrMemText C s) := (hd.rd_ne_rs1 _ hfirst).symm
        have hregs : ∀ r, r ≠ rd (instrMemText C s) ∨ r = 0 →
            (posedge C i s).regs r = s.regs r := fun r hr => by
          rw [hpos]; exact regfileNext_of_ne true hr _ _
        rw [hpos']
        refine .inside ?_ (fun r hr => ?_) ?_
        · rw [Inside, hback hnext]; exact hfirst
        · rw [hinstr] at hr
          rw [hregs r hr]
          exact regfileNext_of_ne true hr _ _
        · rw [loadWord, loadAddr, hinstr, hregs _ (.inl hne), hpos]
          rfl
      · refine .outside (fun hin => hop ?_) (posedge_not_load hram hi.stall hop hsame)
        -- a second copy is only entered from the first, which is a load
        exact hd.load (romIndex s) (by rw [← hback (hentry hin)]; exact hin)
  | @inside regs latch hin hregs hlatch =>
      have hprev : romIndex s - 1 + 1 = romIndex s := BitVec.sub_add_cancel _ _
      have hcopy : instrMemText C s = C.rom (romIndex s - 1) := by
        rw [← hd.copy _ hin, hprev]; rfl
      have hop : opcode (instrMemText C s) = 0b0000011#7 := by rw [hcopy]; exact hd.load _ hin
      have hne : rs1 (instrMemText C s) ≠ rd (instrMemText C s) := by
        rw [hcopy]; exact (hd.rd_ne_rs1 _ hin).symm
      obtain ⟨hpos, hpos'⟩ := posedge_load_pair hram hi hop (hc.aligned hop) latch
        (hregs _ (.inl hne))
      have hnext : romIndex (posedge C i s) = romIndex s + 1 := romIndex_next (by rw [hpos])
      have hsame : (posedge C i s).regs =
          regfileNext true (rd (instrMemText C s)) (loadMask C s (loadWord C s)) regs := by
        rw [hpos, regfileNext_congr hregs, loadValue_eq hram, hlatch]
      refine .outside ?_ ⟨_, by rw [hpos', ← hsame]⟩
      rw [Inside, hback hnext, ← hprev]
      exact hd.apart _ hin

/--
**Doubled loads hide the latency.** However long the run, whenever the program is not
between the two copies of a load, the chip and its combinational version agree on
everything but the latch itself.
-/
theorem doubled_loads (hram : C.Altsyncram) (hd : DoubledLoads C first) (is : List Inputs)
    (s : State) (hs : ¬ Inside first s) (hrun : Along C (PairedCycle C first) is s)
    (hout : ¬ Inside first (run C is s)) :
    SameButLatch (run C is s) (run C.combinational is s) := by
  have hstep : ∀ i s t, PairedCycle C first i s → Paired C first s t →
      Paired C first (cycle C i s) (cycle C.combinational i t) :=
    fun _ _ _ hc h => paired_step hram hd hc h
  have hpaired : Paired C first (run C is s) (run C.combinational is s) :=
    run_simulates hstep is s s hrun (.outside hs ⟨s.ram.latch, rfl⟩)
  generalize run C.combinational is s = t at hpaired ⊢
  cases hpaired with
  | outside _ hsame => exact hsame
  | inside hin => exact absurd hin hout

/-- `addi x1, x0, 7`, `sd x1, 8(x0)`, `ld x2, 8(x0)` twice, `addi x3, x2, 1`. -/
def doubledLoad : Chip :=
  Chip.ofProgram [0x00700093#32, 0x00103423#32, 0x00803103#32, 0x00803103#32, 0x00110193#32]

theorem doubledLoad_doubled : DoubledLoads doubledLoad (· = 2) where
  load := by decide +kernel
  copy := by decide +kernel
  rd_ne_rs1 := by decide +kernel
  cover := by decide +kernel
  apart := by decide +kernel

theorem doubled_loads_ld :
    SameButLatch (run doubledLoad (List.replicate 5 Inputs.idle) (State.released (fun _ => 0) 0))
      (run doubledLoad.combinational (List.replicate 5 Inputs.idle)
        (State.released (fun _ => 0) 0)) := by
  refine doubled_loads (C := doubledLoad) (Chip.ofProgram_altsyncram _) doubledLoad_doubled _ _
    (by decide +kernel)
    ⟨?_, ?_, ?_, ?_, ?_, trivial⟩ (by decide +kernel)
  all_goals exact ⟨⟨rfl, by decide +kernel⟩, by decide +kernel, by decide +kernel⟩

end Core

end PassiFlo
