import PassiFlo.Proof.HartCsr
import PassiFlo.Proof.Injection
import PassiFlo.Proof.DoubledLoads

/-!
# The core refines the hart

An experiment on the core is an experiment on the hart: the same steps, the same register
flips, at the same points of the program. This holds exactly as long as no instruction
executed deviates, in programs that never reach one of the words that the decoder takes for
an instruction although they are none: what those do is compared with nothing here. Most
loads deviate, on the chip as it is; in a program with doubled loads they no longer count,
and what is left are the deviations that come from the branch unit, the ALU and the CSRs.
-/

namespace PassiFlo

open Isa Lanes Clocked

/-- The words that the decoder takes for an instruction although they are none. -/
def Reserved (w : BitVec 32) : Prop :=
  ReservedHole (opcode w) (funct3 w) (funct12 w) (rs1 w) (rd w)

namespace Core

variable {C : Chip} {i : Inputs} {s : State} {h : Hart}

/-! ## The remaining instructions -/

theorem step_fence (hram : C.Altsyncram) (hi : Unstalled i s) (hs : Shows C s h) {d a : BitVec 5}
    {imm : BitVec 12} (hw : instrMemText C s = (Instr.fence d a imm).encode) :
    Shows C (posedge C i s) { h.exec (.fence d a imm) with cycles := h.cycles + 1 } := by
  obtain ⟨hop, -⟩ := fields_of_eq_word hw
  have hrow : (ctl C i s).toMainDec = MainDec.ofBits 0 := by
    rw [ctl_unstalled hi.stall, hop]
    rfl
  have hd : (ctl C i s).toMainDec.Direct := by
    rw [hrow]
    exact ⟨rfl, rfl, rfl, rfl, rfl, rfl⟩
  have hpos := posedge_direct hram hi hd
  have hsrc : pcSrc C i s = false := by rw [pcSrc, hrow]; rfl
  have hwrite : (ctl C i s).regWrite = false := by rw [hrow]; rfl
  rw [hsrc, hwrite] at hpos
  rw [if_neg Bool.false_ne_true] at hpos
  refine (shows_skip_iff hs (sameCsrs_direct hram hi hd) ?_).mpr ⟨?_, ?_⟩
  · rw [hpos]
  · rw [hpos]
    rfl
  · rw [hpos]

/-- **The trap return** never deviates. -/
theorem step_mret (hram : C.Altsyncram) (hi : Unstalled i s) (hs : Shows C s h)
    (hw : instrMemText C s = Instr.mret.encode) :
    Shows C (posedge C i s) { h.exec .mret with cycles := h.cycles + 1 } := by
  obtain ⟨hop, -, hf3, -, -, hf12⟩ := fields_of_eq_word hw
  have hrow : (ctl C i s).toMainDec =
      MainDec.ofBits 0b100_000_0_00_000_00_0_000_000_00#23 := by
    rw [ctl_unstalled hi.stall, hop, hf3, hf12]
    rfl
  have hexc : exceptSignal C i s = 0 := by
    rw [exceptSignal_eq, exceptBits_eq_zero, hrow]
    exact ⟨rfl, Bool.and_false _, Bool.and_false _⟩
  have htrap : trapTrigger C i s = 0 := by rw [trapTrigger_eq, hexc, ite_self]
  have hret : (ctl C i s).trapReturn = true := by rw [hrow]; rfl
  have hcsr : (ctl C i s).csrWriteEnable = false := by rw [hrow]; rfl
  obtain ⟨hmode, hmstatus⟩ := posedge_return hi.reset htrap hret
  have hne : (trapTrigger C i s != 0) = false := by rw [htrap]; rfl
  have hpc := posedge_pc (C := C) hi
  rw [htrap, hret, if_neg (fun h => h rfl), if_pos rfl] at hpc
  have hstatus : (posedge C i s).mstatus = statusWord 0b00#2 true h.mpie := by
    have hback := mstatusMerge_statusWord h.mpp.bits 0b00#2 h.mpie h.mie true h.mpie
    rw [hmstatus, hs.mpie, hs.mstatus]
    exact hback
  exact
    { pc := hpc.trans hs.mepc
      regs := by
        rw [posedge_regs hi.stall, hrow]
        exact hs.regs
      memory := by
        rw [posedge_not_store_words hram hi.stall (by rw [hop]; decide)]
        exact hs.memory
      mode := hmode.trans hs.mpp
      mstatus := hstatus
      mtvec := by
        simp only [posedge, ExceptController.mtvecNext, csrWriteEnable, hcsr, hi.reset, flopre,
          flopreInit, Bool.and_false, Bool.false_eq_true, if_false]
        exact hs.mtvec
      mepc := by
        simp only [posedge, ExceptController.mepcNext, exceptCSREnable_eq, hne, hi.reset, flopre,
          flopreInit, Bool.false_eq_true, if_false]
        exact hs.mepc
      mcause := by
        simp only [posedge, ExceptController.mcauseNext, exceptCSREnable_eq, hne, hi.reset, flopre,
          flopreInit, Bool.false_eq_true, if_false]
        exact hs.mcause
      mscratch := hs.mscratch
      cycles := by
        simp only [posedge, hi.reset, hi.stall, flopre, flopreInit, Bool.not_false,
          Bool.false_eq_true, if_false, if_true]
        rw [hs.cycles] }

/-- An exception of the decoder leaks nothing. -/
theorem noEffect_decoded (hi : Unstalled i s) {t : Trap} (ht : Raises s (instrMemText C s) t)
    (hload : opcode (instrMemText C s) ≠ 0b0000011#7)
    (hstore : opcode (instrMemText C s) ≠ 0b0100011#7) (hne : t.decoded ≠ 0) : NoEffect C i s := by
  refine ⟨fun hl => absurd hl hload, fun hl => absurd hl hstore, fun _ hwrite => ?_⟩
  have hinert : (ctl C i s).toMainDec.Inert := by
    rw [ctl_unstalled hi.stall]
    refine maindec_except_inert ?_
    rw [← ctl_unstalled hi.stall, (exceptSignal_raises hi.stall ht).1]
    exact hne
  rw [hinert.regWrite] at hwrite
  exact absurd hwrite Bool.false_ne_true

theorem step_ecall (hram : C.Altsyncram) (hi : Unstalled i s) (hs : Shows C s h)
    (hw : instrMemText C s = Instr.ecall.encode) :
    Shows C (posedge C i s) { h.exec .ecall with cycles := h.cycles + 1 } ↔
      ¬ (mie s = true ∧ s.mode = 0b11#2) := by
  obtain ⟨hop, -, hf3, -, -, hf12⟩ := fields_of_eq_word hw
  have ht : Raises s (instrMemText C s) .ecall := ⟨hop, hf3, hf12⟩
  have hno : NoEffect C i s := noEffect_decoded hi ht (by rw [hop]; decide) (by rw [hop]; decide)
    (by decide)
  refine (step_raise hram hi hs ht .ecall).trans ?_
  rw [and_iff_right hno, hs.mode, not_and]
  cases h.mode with
  | user => exact iff_of_true (fun _ => rfl) fun _ => by decide
  | machine =>
      refine forall_congr' fun _ => iff_of_false ?_ (not_not_intro rfl)
      exact of_decide_eq_false rfl

theorem step_ebreak (hram : C.Altsyncram) (hi : Unstalled i s) (hs : Shows C s h)
    (hw : instrMemText C s = Instr.ebreak.encode) :
    Shows C (posedge C i s) { h.exec .ebreak with cycles := h.cycles + 1 } := by
  obtain ⟨hop, -, hf3, -, -, hf12⟩ := fields_of_eq_word hw
  have ht : Raises s (instrMemText C s) .ebreak := ⟨hop, hf3, hf12⟩
  have hno : NoEffect C i s := noEffect_decoded hi ht (by rw [hop]; decide) (by rw [hop]; decide)
    (by decide)
  exact (step_raise hram hi hs ht .breakpoint).mpr ⟨hno, fun _ => rfl⟩

/-- A word that is no instruction, and that the decoder does not take for one. -/
theorem step_illegal (hram : C.Altsyncram) (hi : Unstalled i s) (hs : Shows C s h)
    (hw : Instr.decode (instrMemText C s) = none) (hres : ¬ Reserved (instrMemText C s)) :
    Shows C (posedge C i s) { h.raise .illegal with cycles := h.cycles + 1 } := by
  have ht : Raises s (instrMemText C s) .illegal := by
    refine ((illegal_iff_not_legal _ _ _ _ _).mpr hres).mpr ?_
    rw [← legal_iff]
    exact Instr.decode_eq_none_iff.mp hw
  have hload : opcode (instrMemText C s) ≠ 0b0000011#7 := by
    intro hop
    rcases ht with hno | ⟨hsys, -⟩
    · exact hno (by rw [hop]; decide)
    · exact absurd (hop.symm.trans hsys) (by decide)
  have hstore : opcode (instrMemText C s) ≠ 0b0100011#7 := by
    intro hop
    rcases ht with hno | ⟨hsys, -⟩
    · exact hno (by rw [hop]; decide)
    · exact absurd (hop.symm.trans hsys) (by decide)
  exact (step_raise hram hi hs ht .illegal).mpr
    ⟨noEffect_decoded hi ht hload hstore (by decide), fun _ => rfl⟩

/-! ## One step -/

theorem step_instr (hram : C.Altsyncram) (hi : Unstalled i s) (hs : Shows C s h) {x : Instr}
    (hw : instrMemText C s = x.encode) :
    Shows C (posedge C i s) { h.exec x with cycles := h.cycles + 1 } ↔ ¬ InstrDeviates C s x := by
  cases x with
  | lui | auipc | opImm | shiftImm | addiw | shiftImmW | op | opW =>
      exact step_compute hram hi hs hw rfl
  | jal => exact step_jal hram hi hs hw
  | jalr => exact step_jalr hram hi hs hw
  | branch => exact step_branch hram hi hs hw
  | load => exact step_load hram hi hs hw
  | store => exact step_store hram hi hs hw
  | csr => exact step_csr hram hi hs hw
  | fence => exact iff_of_true (step_fence hram hi hs hw) id
  | ecall => exact step_ecall hram hi hs hw
  | ebreak => exact iff_of_true (step_ebreak hram hi hs hw) id
  | mret => exact iff_of_true (step_mret hram hi hs hw) id

/--
**One step.** An unstalled cycle takes what the core shows to the next state of the hart
exactly if the instruction does not deviate.
-/
theorem step_iff (hram : C.Altsyncram) (hi : Unstalled i s) (hs : Shows C s h)
    (hres : ¬ Reserved (instrMemText C s)) :
    Shows C (cycle C i s) (h.step C.rom) ↔ ¬ Deviates C s := by
  rw [cycle_eq_posedge hi.reset, Deviates]
  unfold Hart.step
  rw [← hs.fetch]
  cases hx : Instr.decode (instrMemText C s) with
  | none => exact iff_of_true (step_illegal hram hi hs hx hres) fun h => nomatch h.choose_spec.1
  | some x =>
      refine (step_instr hram hi hs (Instr.decode_eq_some_iff.mp hx).symm).trans (not_congr ?_)
      exact ⟨fun h => ⟨x, rfl, h⟩, fun ⟨y, hy, h⟩ => (Option.some.inj hy).symm ▸ h⟩

/-! ## Experiments -/

/-- What an operation of an experiment is for the hart. -/
def Op.act (rom : BitVec 10 → BitVec 32) (h : Hart) : Op → Hart
  | .step => h.step rom
  | .flip r mask => h.flip r mask
  | .skip => h

/-- The stop count is not shown. -/
theorem shows_program_iff : Shows C (program s) h ↔ Shows C s h :=
  ⟨fun hs => ⟨hs.pc, hs.regs, hs.memory, hs.mode, hs.mstatus, hs.mtvec, hs.mepc, hs.mcause,
    hs.mscratch, hs.cycles⟩, fun hs => ⟨hs.pc, hs.regs, hs.memory, hs.mode, hs.mstatus, hs.mtvec,
    hs.mepc, hs.mcause, hs.mscratch, hs.cycles⟩⟩

/-- A register flip is shown. -/
theorem shows_flip (hs : Shows C s h) (r : BitVec 5) (mask : BitVec 64) :
    Shows C ((Op.flip r mask).apply C s) (h.flip r mask) := by
  have hregs : ((Op.flip r mask).apply C s).regs =
      (h.regs.write r (h.regs.val r ^^^ mask)).val := by
    change _ = writeReg r (h.regs.val r ^^^ mask) h.regs.val
    rw [Op.apply, ← hs.regs]
    unfold writeReg
    split_ifs <;> rfl
  have hrest : (Op.flip r mask).apply C s =
      { s with regs := ((Op.flip r mask).apply C s).regs } := by
    rw [Op.apply]
    split_ifs <;> rfl
  rw [hrest, hregs]
  exact ⟨hs.pc, rfl, hs.memory, hs.mode, hs.mstatus, hs.mtvec, hs.mepc, hs.mcause, hs.mscratch,
    hs.cycles⟩

/-- The cycle executes an instruction the decoder takes for what it is. -/
def Decodes (C : Chip) (i : Inputs) (s : State) : Prop :=
  op i s = .step → ¬ Reserved (instrMemText C s)

/-- The cycle does to the core what it does to the hart. -/
def Faithful (C : Chip) (i : Inputs) (s : State) : Prop := op i s = .step → ¬ Deviates C s

theorem op_eq_step_iff : op i s = .step ↔ i.weDB = false ∧ cycleStall i s = false := by
  unfold op
  cases i.weDB <;> cases cycleStall i s <;> simp

/-- **One cycle of an experiment.** -/
theorem act_iff (hram : C.Altsyncram) (hi : Experiment i) (hres : Decodes C i s)
    (hs : Shows C s h) : Shows C (cycle C i s) ((op i s).act C.rom h) ↔ Faithful C i s := by
  unfold Faithful
  cases hop : op i s with
  | step =>
      obtain ⟨hdb, hcs⟩ := op_eq_step_iff.mp hop
      have hst : coprocessorStall i s = false := by rw [hi.stall, hdb, hcs]; rfl
      rw [forall_prop_of_true rfl]
      exact step_iff hram ⟨hi.reset, hst⟩ hs (hres hop)
  | flip r mask =>
      refine iff_of_true ?_ fun h => nomatch h
      rw [← shows_program_iff, cycle_op hram hi, hop]
      exact shows_flip (shows_program_iff.mpr hs) r mask
  | skip =>
      refine iff_of_true ?_ fun h => nomatch h
      rw [← shows_program_iff, cycle_op hram hi, hop]
      exact shows_program_iff.mpr hs

/-- The hart at reset. -/
def resetHart (words : BitVec 12 → BitVec 64) (mscratch : BitVec 64) : Hart where
  pc := ⟨0, by decide⟩
  regs := ⟨fun _ => 0, rfl⟩
  memory := ByteMem.ofWords words
  mode := .machine
  mpp := .user
  mpie := false
  mie := false
  mtvec := ⟨0, by decide⟩
  mepc := ⟨0, by decide⟩
  mcause := 0
  mscratch := mscratch
  cycles := 0

theorem shows_released (C : Chip) (words : BitVec 12 → BitVec 64) (latch : BitVec 64) :
    Shows C (State.released words latch) (resetHart words C.undriven) :=
  ⟨rfl, rfl, rfl, rfl, mstatusInit_eq, rfl, rfl, rfl, rfl, rfl⟩

/--
**The core refines the hart.** In an experiment, of whatever stalls, stops and register
flips, the core shows at every cycle the hart that made the same steps and took the same
flips, exactly as long as none of the instructions executed deviates. The experiment is one
in which no word executed is reserved, and the chip has the vendor's RAM.
-/
theorem refines_hart (hram : C.Altsyncram) (is : List Inputs) (s : State) (h : Hart)
    (hexp : ∀ i ∈ is, Experiment i) (hres : Along C (Decodes C) is s) (hs : Shows C s h) :
    (∀ p, p <+: is →
        Shows C (run C p s) ((trace (cycle C) op p s).foldl (Op.act C.rom) h)) ↔
      Along C (Faithful C) is s :=
  lockstep_iff (P := fun i s => Experiment i ∧ Decodes C i s)
    (fun _ _ _ hP hs => act_iff hram hP.1 hP.2 hs) is s h
    (along_and is s (along_of_forall is s hexp) hres) hs

/-- An instruction that does not deviate. -/
theorem not_deviates {x : Instr} (hx : x.encode = instrMemText C s) (hd : ¬ InstrDeviates C s x) :
    ¬ Deviates C s := by
  intro hdev
  obtain ⟨y, hy, hdev⟩ := hdev
  rw [Instr.decode_eq_some_iff.mpr hx] at hy
  exact hd (Option.some.inj hy ▸ hdev)

/-- `addi` twice, with a flip in between. -/
theorem refines_hart_flip :
    Shows countTwice (run countTwice flipBetween
        { State.released (fun _ => 0) 0 with cycleStallFlag := 2 })
      ([Op.step, Op.flip 1 4, Op.step, Op.skip].foldl (Op.act countTwice.rom)
        (resetHart (fun _ => 0) 0)) := by
  have haddi : ∀ i s, instrMemText countTwice s = 0x00108093#32 → Faithful countTwice i s :=
    fun _ _ hs _ => not_deviates (x := .opImm .addi 1 1 1) (by rw [hs]; decide) id
  have hlegal : ∀ i s, instrMemText countTwice s = 0x00108093#32 → Decodes countTwice i s := by
    intro i s hs _
    rw [hs]
    unfold Reserved ReservedHole
    decide +kernel
  have hshown := (refines_hart (C := countTwice) (Chip.ofProgram_altsyncram _) flipBetween _ _
    (by decide +kernel)
    ⟨hlegal _ _ rfl, fun hop => ?_, hlegal _ _ (by decide +kernel), fun hop => ?_, trivial⟩
    ((shows_program_iff (s := { State.released (fun _ => 0) 0 with cycleStallFlag := 2 })).mp
      (shows_released countTwice (fun _ => 0) 0))).mpr
    ⟨haddi _ _ rfl, fun hop => ?_, haddi _ _ (by decide +kernel), fun hop => ?_, trivial⟩
    flipBetween (List.prefix_refl _)
  · have htrace : trace (cycle countTwice) op flipBetween
        { State.released (fun _ => 0) 0 with cycleStallFlag := 2 } =
          [Op.step, Op.flip 1 4, Op.step, Op.skip] := by decide +kernel
    rwa [htrace] at hshown
  all_goals exact absurd hop (by decide +kernel)

/-! ## Doubled loads -/

variable {first : BitVec 10 → Prop}

/-- What a program with doubled loads shows: between the copies of a load, all but its `rd`. -/
inductive ShowsDoubled (C : Chip) (first : BitVec 10 → Prop) (s : State) (h : Hart) : Prop
  | outside : ¬ Inside first s → Shows C s h → ShowsDoubled C first s h
  | inside {regs : BitVec 5 → BitVec 64} : Inside first s →
      (∀ r, r ≠ rd (instrMemText C s) ∨ r = 0 → regs r = s.regs r) →
      s.ram.latch = loadWord C s → Shows C { s with regs := regs } h → ShowsDoubled C first s h

/-- The word that a load addresses holds its value. -/
theorem loadMask_word {o : LoadOp} {d a : BitVec 5} {imm : BitVec 12}
    (hw : instrMemText C s = (Instr.load o d a imm).encode)
    (hfit : Fits (s.regs a + imm.signExtend 64) o.bytes) :
    loadMask C s (loadWord C s) = o.value (ByteMem.ofWords s.ram.words)
      ((s.regs a + imm.signExtend 64).setWidth 15) := by
  obtain ⟨-, -, hf3, haddr⟩ := load_fields hw
  have hmask := memReadMask_load s.ram.words ((s.regs a + imm.signExtend 64).setWidth 15) o.funct3
    (by rw [setWidth_lane, loadBytes]; exact hfit)
  rw [setWidth_word, setWidth_lane, loadResult_value] at hmask
  rw [loadMask, loadWord, hf3, haddr]
  exact hmask

/-- **A load of a pair**, on the chip and on the hart. -/
theorem step_pair (hram : C.Altsyncram) (hi : Unstalled i s)
    {regs : BitVec 5 → BitVec 64} (hs : Shows C { s with regs := regs } h) {o : LoadOp}
    {d a : BitVec 5} {imm : BitVec 12} (hw : instrMemText C s = (Instr.load o d a imm).encode)
    (hfit : Fits (s.regs a + imm.signExtend 64) o.bytes) (ha : regs a = s.regs a) :
    (posedge C i s).pc = s.pc + 4 ∧
      (posedge C i s).regs = writeReg d (loadMask C s s.ram.latch) s.regs ∧
      (posedge C i s).ram = ⟨s.ram.words, loadWord C s⟩ ∧
      Shows C { posedge C i s with regs := writeReg d (loadMask C s (loadWord C s)) regs }
        (h.step C.rom) := by
  obtain ⟨hop, hd, hf3, haddr⟩ := load_fields hw
  have hlane : ((loadAddr s (instrMemText C s)).extractLsb' 0 3).toNat +
      accessBytes (loadSize (funct3 (instrMemText C s))) ≤ 8 := by
    rw [haddr, hf3, loadBytes]
    exact hfit
  have hrefl : s.regs (rs1 (instrMemText C s)) = s.regs (rs1 (instrMemText C s)) := rfl
  have hpos := (posedge_load_pair hram hi hop hlane 0 hrefl).1
  have hexec : h.exec (.load o d a imm) = h.load o d (s.regs a + imm.signExtend 64) := by
    rw [← ha, show regs = h.regs.val from hs.regs]
    rfl
  have hstep : h.step C.rom = { h.compute d (loadMask C s (loadWord C s)) with
      cycles := h.cycles + 1 } := by
    unfold Hart.step
    rw [← hs.fetch, show instrMemText C { s with regs := regs } = _ from hw, Instr.decode_encode]
    dsimp only
    rw [hexec, loadMask_word hw hfit]
    unfold Hart.load
    rw [if_pos hfit, ← hs.memory]
  rw [hstep, hpos, hd, loadValue_eq hram, regfileNext_eq_writeReg]
  refine ⟨rfl, rfl, rfl, ?_⟩
  have hf : SameCsrs { s with regs := regs }
      { posedge C i s with regs := writeReg d (loadMask C s (loadWord C s)) regs } := by
    rw [hpos]
    exact ⟨rfl, rfl, rfl, rfl, rfl, rfl⟩
  have hshown : Shows C { posedge C i s with regs := writeReg d (loadMask C s (loadWord C s)) regs }
      { h.compute d (loadMask C s (loadWord C s)) with cycles := h.cycles + 1 } :=
    (shows_compute_iff hs hf (by rw [hpos]) rfl (by rw [hpos])).mpr (.inr rfl)
  rw [hpos] at hshown
  exact hshown

/-- A cycle of a doubled program whose instruction the decoder takes for what it is. -/
structure DoubledCycle (C : Chip) (first : BitVec 10 → Prop) (i : Inputs) (s : State) : Prop where
  paired : PairedCycle C first i s
  decodes : ¬ Reserved (instrMemText C s)

/-- The instruction is a load, or does what it does on the hart. -/
def FaithfulButLoads (C : Chip) (s : State) : Prop :=
  opcode (instrMemText C s) ≠ 0b0000011#7 → ¬ Deviates C s

/-- A word with the opcode of a load is a load. -/
theorem exists_load (hop : opcode (instrMemText C s) = 0b0000011#7)
    (hres : ¬ Reserved (instrMemText C s)) :
    ∃ o d a imm, instrMemText C s = (Instr.load o d a imm).encode := by
  have hf3 : funct3 (instrMemText C s) ≠ 0b111#3 := fun hf3 => hres (.inr (.inl ⟨hop, hf3⟩))
  obtain ⟨o, ho⟩ := (LoadOp.exists_funct3 _).mpr hf3
  exact ⟨o, rd (instrMemText C s), rs1 (instrMemText C s), funct12 (instrMemText C s), by
    rw [Instr.encode, ho, ← hop, word_fields]⟩

/-- A pair is only entered from its first copy. -/
theorem outside_of_not_load (hd : DoubledLoads C first) (hc : PairedCycle C first i s)
    (hop : opcode (instrMemText C s) ≠ 0b0000011#7) : ¬ Inside first (cycle C i s) := by
  intro hin
  have hfirst : first (romIndex s) := by
    rw [← BitVec.add_sub_cancel (romIndex s) 1, ← hc.entry hin]
    exact hin
  exact hop (hd.load _ hfirst)

/-- Outside a pair the step is that of the hart. -/
theorem doubled_outside_iff (hram : C.Altsyncram) (hd : DoubledLoads C first)
    (hc : DoubledCycle C first i s) (hop : opcode (instrMemText C s) ≠ 0b0000011#7)
    (hs : Shows C s h) :
    ShowsDoubled C first (cycle C i s) (h.step C.rom) ↔ FaithfulButLoads C s := by
  have hout := outside_of_not_load hd hc.paired hop
  rw [FaithfulButLoads, forall_prop_of_true hop, ← step_iff hram hc.paired.unstalled hs hc.decodes]
  refine ⟨fun h' => ?_, .outside hout⟩
  cases h' with
  | outside _ hs' => exact hs'
  | inside hin => exact absurd hin hout

/-- **One cycle of a doubled program.** -/
theorem doubled_step_iff (hram : C.Altsyncram) (hd : DoubledLoads C first)
    (hc : DoubledCycle C first i s) (hs : ShowsDoubled C first s h) :
    ShowsDoubled C first (cycle C i s) (h.step C.rom) ↔ FaithfulButLoads C s := by
  have hi := hc.paired.unstalled
  have hfit : ∀ {o d a imm}, instrMemText C s = (Instr.load o d a imm).encode →
      Fits (s.regs a + imm.signExtend 64) o.bytes := by
    intro o d a imm hw
    obtain ⟨hop, -, hf3, haddr⟩ := load_fields hw
    have halign := hc.paired.aligned hop
    rw [haddr, hf3, loadBytes] at halign
    exact halign
  have hvacuous : opcode (instrMemText C s) = 0b0000011#7 → FaithfulButLoads C s :=
    fun hop hne => absurd hop hne
  cases hs with
  | outside hout hs =>
      by_cases hop : opcode (instrMemText C s) = 0b0000011#7
      · -- a load outside a pair is a first copy
        have hfirst : first (romIndex s) := (hd.cover _ hop).resolve_right hout
        obtain ⟨o, d, a, imm, hw⟩ := exists_load hop hc.decodes
        obtain ⟨-, hrd, -, -⟩ := load_fields hw
        obtain ⟨-, -, -, ha, -⟩ := fields_of_eq_word hw
        obtain ⟨hpc, hregs, hramNext, hshown⟩ := step_pair hram hi hs hw (hfit hw) rfl
        have hnext : romIndex (posedge C i s) = romIndex s + 1 := romIndex_next hpc
        have hinstr : instrMemText C (posedge C i s) = instrMemText C s :=
          (congrArg C.rom hnext).trans (hd.copy _ hfirst)
        have hne : a ≠ d := by
          rw [← ha, ← hrd]
          exact (hd.rd_ne_rs1 _ hfirst).symm
        have hother : ∀ r, r ≠ d ∨ r = 0 → ∀ v, writeReg d v s.regs r = s.regs r := by
          intro r hr v
          rw [← regfileNext_eq_writeReg]
          exact regfileNext_of_ne true hr _ _
        refine iff_of_true ?_ (hvacuous hop)
        rw [cycle_eq_posedge hi.reset]
        refine .inside ?_ (fun r hr => ?_) ?_ hshown
        · rw [Inside, hnext, BitVec.add_sub_cancel]
          exact hfirst
        · rw [hinstr, hrd] at hr
          rw [hother r hr, hregs, hother r hr]
        · rw [loadWord, loadAddr, hinstr, ha, hregs, hother a (.inl hne), hramNext, loadWord,
            loadAddr, ha]
      · exact doubled_outside_iff hram hd hc hop hs
  | @inside regs hin hother hlatch hs =>
      have hprev : romIndex s - 1 + 1 = romIndex s := BitVec.sub_add_cancel _ _
      have hcopy : instrMemText C s = C.rom (romIndex s - 1) := by
        rw [← hd.copy _ hin, hprev]
        rfl
      have hop : opcode (instrMemText C s) = 0b0000011#7 := by
        rw [hcopy]
        exact hd.load _ hin
      obtain ⟨o, d, a, imm, hw⟩ := exists_load hop hc.decodes
      obtain ⟨-, hrd, -, -⟩ := load_fields hw
      obtain ⟨-, -, -, ha, -⟩ := fields_of_eq_word hw
      have hne : a ≠ d := by
        rw [← ha, ← hrd, hcopy]
        exact (hd.rd_ne_rs1 _ hin).symm
      rw [hrd] at hother
      obtain ⟨hpc, hregs, -, hshown⟩ := step_pair hram hi hs hw (hfit hw) (hother a (.inl hne))
      -- the second copy writes the same register again
      have hsame : writeReg d (loadMask C s (loadWord C s)) regs = (posedge C i s).regs := by
        rw [hregs, hlatch, ← regfileNext_eq_writeReg, ← regfileNext_eq_writeReg,
          regfileNext_congr hother]
      rw [hsame] at hshown
      have hout : ¬ Inside first (posedge C i s) := by
        rw [Inside, romIndex_next hpc, BitVec.add_sub_cancel, ← hprev]
        exact hd.apart _ hin
      refine iff_of_true ?_ (hvacuous hop)
      rw [cycle_eq_posedge hi.reset]
      exact .outside hout hshown

/--
**Doubled programs refine the hart.** A program whose loads are doubled shows the hart,
step for step, whenever it is not between the two copies of a load: exactly as long as
none of its other instructions deviates. It starts outside a pair and runs without a stall;
it enters a pair at its first copy only, no load of it leaves its 8-byte word, and no word
that it executes is reserved.
-/
theorem doubled_refines_hart (hram : C.Altsyncram) (hd : DoubledLoads C first) (is : List Inputs)
    (s : State) (h : Hart) (hs : Shows C s h) (hout : ¬ Inside first s)
    (hrun : Along C (DoubledCycle C first) is s) :
    (∀ p, p <+: is → ¬ Inside first (run C p s) →
        Shows C (run C p s) ((Hart.step C.rom)^[p.length] h)) ↔
      Along C (fun _ t => FaithfulButLoads C t) is s := by
  constructor
  · intro hall
    refine (along_iff_getElem? is s).mpr ?_
    intro k i hk hop
    have hlt : k < is.length := (List.getElem?_eq_some_iff.mp hk).1
    have hnext : is.take (k + 1) = is.take k ++ [i] := by
      rw [List.take_add_one, hk]
      rfl
    have hc := (along_iff_getElem? is s).mp hrun k i hk
    have hshown := hall (is.take k) (List.take_prefix k is) fun hin => by
      refine hop ?_
      have hfetch : instrMemText C (run C (is.take k) s) =
          C.rom (romIndex (run C (is.take k) s)) := rfl
      rw [hfetch, ← BitVec.sub_add_cancel (romIndex _) 1, hd.copy _ hin]
      exact hd.load _ hin
    have hshown' := hall (is.take (k + 1)) (List.take_prefix (k + 1) is)
    have hlast : run C (is.take k ++ [i]) s = cycle C i (run C (is.take k) s) :=
      run_append _ _ _ _
    rw [hnext, hlast, List.length_append, List.length_take_of_le (Nat.le_of_lt hlt),
      List.length_singleton, Function.iterate_succ_apply'] at hshown'
    rw [List.length_take_of_le (Nat.le_of_lt hlt)] at hshown
    exact (step_iff hram hc.paired.unstalled hshown hc.decodes).mp
      (hshown' (outside_of_not_load hd hc.paired hop))
  · intro hfaithful p hp hpout
    obtain ⟨q, rfl⟩ := hp
    have halong := ((along_append p q s).mp
      (along_and (p ++ q) s hrun hfaithful)).1
    have hstep : ∀ i t t', DoubledCycle C first i t ∧ FaithfulButLoads C t →
        ShowsDoubled C first t t' → ShowsDoubled C first (cycle C i t) (Hart.step C.rom t') :=
      fun i t t' hP hR => (doubled_step_iff hram hd hP.1 hR).mpr hP.2
    have hdoubled := run_simulates hstep p s h halong (.outside hout hs)
    rw [run_const] at hdoubled
    cases hdoubled with
    | outside _ hs' => exact hs'
    | inside hin => exact absurd hin hpout

/-- The program of `doubledLoad`, on both machines. -/
theorem doubled_refines_hart_ld :
    Shows doubledLoad (run doubledLoad (List.replicate 5 Inputs.idle)
        (State.released (fun _ => 0) 0))
      ((Hart.step doubledLoad.rom)^[5] (resetHart (fun _ => 0) 0)) := by
  have hlegal : ∀ s, instrMemText doubledLoad s = 0x00700093#32 ∨
      instrMemText doubledLoad s = 0x00103423#32 ∨ instrMemText doubledLoad s = 0x00803103#32 ∨
        instrMemText doubledLoad s = 0x00110193#32 → ¬ Reserved (instrMemText doubledLoad s) := by
    intro s hs
    rcases hs with hs | hs | hs | hs
    all_goals
      rw [hs]
      unfold Reserved ReservedHole
      decide +kernel
  refine (doubled_refines_hart (C := doubledLoad) (Chip.ofProgram_altsyncram _)
    doubledLoad_doubled (List.replicate 5 Inputs.idle) (State.released (fun _ => 0) 0) _
    (shows_released _ _ _) (by decide +kernel) ⟨?_, ?_, ?_, ?_, ?_, trivial⟩).mpr
    ⟨fun _ => ?_, fun _ => ?_, fun hop => ?_, fun hop => ?_, fun _ => ?_, trivial⟩ _
    (List.prefix_refl _) (by decide +kernel)
  · exact ⟨⟨⟨rfl, rfl⟩, by decide +kernel, by decide +kernel⟩, hlegal _ (by decide +kernel)⟩
  · exact ⟨⟨⟨rfl, rfl⟩, by decide +kernel, by decide +kernel⟩, hlegal _ (by decide +kernel)⟩
  · exact ⟨⟨⟨rfl, rfl⟩, by decide +kernel, by decide +kernel⟩, hlegal _ (by decide +kernel)⟩
  · exact ⟨⟨⟨rfl, rfl⟩, by decide +kernel, by decide +kernel⟩, hlegal _ (by decide +kernel)⟩
  · exact ⟨⟨⟨rfl, rfl⟩, by decide +kernel, by decide +kernel⟩, hlegal _ (by decide +kernel)⟩
  · exact not_deviates (x := .opImm .addi 1 0 7) (by decide +kernel) id
  · exact not_deviates (x := .store .sd 0 1 0 8) (by decide +kernel)
      fun hdev => hdev.1 (by unfold Fits; decide +kernel)
  · exact absurd (by decide +kernel) hop
  · exact absurd (by decide +kernel) hop
  · exact not_deviates (x := .opImm .addi 3 2 1) (by decide +kernel) id

end Core

end PassiFlo
