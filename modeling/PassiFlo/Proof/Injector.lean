import PassiFlo.Soft.Injector
import PassiFlo.Proof.Injection
import PassiFlo.Proof.Latch
import PassiFlo.Proof.SetAndClear

/-!
# What the injector reports

The injector knows nothing about time: between any two of its accesses the core makes as
many cycles as it makes. Its report is nonetheless that of an experiment on the program:
the delay in steps, one register flip, some more steps, and the values found. Each phase
of `main` is a phase of the pins, and under constant pins the core does one thing: it is
held in reset, counts to the stop, flips a register, steps, or reads its memory.
-/

namespace PassiFlo

open Clocked

namespace Core

variable {C : Chip} {i : Inputs} {s : State}

/-! ## In reset -/

/-- What the reset leaves alone. -/
def heldInReset (s : State) (flag : BitVec 64) : State :=
  { State.released s.ram.words s.ram.latch with regs := s.regs, cycleStallFlag := flag }

/-- The stop count after a cycle in reset. -/
def resetFlag (i : Inputs) (x : BitVec 64) : BitVec 64 :=
  if i.stopAt then if i.csrDB && i.addr.getLsbD 12 then i.dataOut else x else 0

/-- A `nop` at address 0 does nothing, however often the reset executes it. -/
theorem cycle_in_reset (hram : C.Altsyncram) (hnop : C.rom 0 = 0x00000013#32)
    (hr : i.reset = true) (hdb : i.weDB = false) (hwe : i.memWe = false) (hre : i.memRe = false) :
    cycle C i s = heldInReset s (resetFlag i s.cycleStallFlag) := by
  have hpc : (settle i s).pc = 0 := if_pos hr
  have hinstr : instrMemText C (settle i s) = 0x00000013#32 := by
    rw [instrMemText, hpc]
    exact hnop
  have hrow : coprocessorStall i (settle i s) = false → (ctl C i (settle i s)).toMainDec =
      MainDec.ofBits 0b000_000_0_00_101_00_0_000_000_11#23 := by
    intro hst
    rw [ctl_unstalled hst, hinstr]
    rfl
  have hregs : (posedge C i (settle i s)).regs = s.regs := by
    cases hst : coprocessorStall i (settle i s) with
    | true =>
        simp only [posedge, ctl_stalled hst, hdb]
        rfl
    | false =>
        rw [posedge_regs hst, hinstr]
        exact if_neg (by rw [show rd 0x00000013#32 = 0 from rfl]; simp)
  have hidle : (dmemPort C i (settle i s)).rden = false ∧
      (dmemPort C i (settle i s)).wren = false := by
    cases hst : coprocessorStall i (settle i s) with
    | true => exact ⟨(dmemPort_stalled hst).1.trans hre, (dmemPort_stalled hst).2.trans hwe⟩
    | false =>
        rw [dmemPort_unstalled hst, hrow hst]
        exact ⟨rfl, rfl⟩
  have hramNext : (posedge C i (settle i s)).ram = s.ram := hram.clock_idle hidle.1 hidle.2
  have hflag : (posedge C i (settle i s)).cycleStallFlag = resetFlag i s.cycleStallFlag := by
    cases hstop : i.stopAt <;>
      simp only [resetFlag, posedge, settle, hstop, flopre, flopreInit, Bool.not_true,
        Bool.not_false, Bool.true_and, Bool.false_eq_true, if_false, if_true]
  have hreset : cycle C i s = { heldInReset s 0 with
      regs := (posedge C i (settle i s)).regs
      ram := (posedge C i (settle i s)).ram
      cycleStallFlag := (posedge C i (settle i s)).cycleStallFlag } := by
    unfold cycle
    refine State.ext ?_ rfl rfl ?_ ?_ ?_ ?_ ?_ ?_ rfl ?_
    all_goals
      simp only [posedge, hr]
      rfl
  rw [hreset, hregs, hramNext, hflag]
  rfl

theorem resetFlag_idem (i : Inputs) (x : BitVec 64) :
    resetFlag i (resetFlag i x) = resetFlag i x := by
  unfold resetFlag
  split_ifs <;> rfl

/-- **Holding the reset.** However long it takes. -/
theorem iterate_in_reset (hram : C.Altsyncram) (hnop : C.rom 0 = 0x00000013#32)
    (hr : i.reset = true) (hdb : i.weDB = false) (hwe : i.memWe = false) (hre : i.memRe = false)
    (n : ℕ) : (cycle C i)^[n + 1] s = heldInReset s (resetFlag i s.cycleStallFlag) := by
  induction n with
  | zero => exact cycle_in_reset hram hnop hr hdb hwe hre
  | succ n ih =>
      rw [Function.iterate_succ_apply', ih, cycle_in_reset hram hnop hr hdb hwe hre]
      exact congrArg (heldInReset s) (resetFlag_idem i _)

/-! ## Counting to the stop -/

/-- **Counting to the stop.** The steps of the program, as many as there are cycles for. -/
theorem iterate_until_stop (hram : C.Altsyncram) (hi : Experiment i) (hstop : i.stopAt = true)
    (hdb : i.weDB = false) (h0 : s.cycles = 0) (n : ℕ) :
    program ((cycle C i)^[n] s) =
        (step C)^[min n s.cycleStallFlag.toNat] (program s) ∧
      ((cycle C i)^[n] s).cycleStallFlag = s.cycleStallFlag ∧
      ((cycle C i)^[n] s).cycles.toNat = min n s.cycleStallFlag.toNat := by
  induction n with
  | zero =>
      rw [Nat.zero_min]
      exact ⟨rfl, rfl, by rw [Function.iterate_zero_apply, h0]; rfl⟩
  | succ n ih =>
      obtain ⟨hprogram, hflag, hcycles⟩ := ih
      have hop := cycle_op (s := (cycle C i)^[n] s) hram hi
      have hnext := cycle_cycles (s := (cycle C i)^[n] s) hram hi
      have hlt := s.cycleStallFlag.isLt
      rw [Function.iterate_succ_apply']
      refine ⟨?_, (cycle_stallFlag hi hstop).trans hflag, ?_⟩
      all_goals
        have hstall := cycleStall_iff (s := (cycle C i)^[n] s) hstop
        rw [hflag, hcycles] at hstall
      · rw [hop, hprogram, op, hdb, if_neg Bool.false_ne_true]
        split_ifs with hc
        · have hstopped := hstall.mp hc
          rw [Nat.min_eq_right (by omega), Nat.min_eq_right (by omega)]
          rfl
        · have hcounts : ¬ min n s.cycleStallFlag.toNat = s.cycleStallFlag.toNat :=
            fun h => hc (hstall.mpr h)
          rw [Nat.min_eq_left (by omega), Nat.min_eq_left (by omega),
            Function.iterate_succ_apply']
          rfl
      · rw [hnext, op_steps, BitVec.toNat_add, hcycles, BitVec.toNat_ofNat]
        split_ifs with hc
        · have hne : ¬ min n s.cycleStallFlag.toNat = s.cycleStallFlag.toNat := by
            rw [← hstall, hc.2]
            exact Bool.false_ne_true
          rw [Nat.mod_eq_of_lt (a := 1) (by decide), Nat.mod_eq_of_lt (by omega)]
          omega
        · have heq : min n s.cycleStallFlag.toNat = s.cycleStallFlag.toNat := by
            rw [← hstall]
            exact Bool.not_eq_false _ ▸ fun h => hc ⟨hdb, h⟩
          rw [Nat.zero_mod, Nat.add_zero, Nat.mod_eq_of_lt (by omega)]
          omega

/-- The flag the host polls says that the stop is reached. -/
theorem stall_seen_iff (hram : C.Altsyncram) (hi : Experiment i) (hstop : i.stopAt = true)
    (hdb : i.weDB = false) (h0 : s.cycles = 0) (n : ℕ) :
    cycleStall i ((cycle C i)^[n] s) = true ↔ s.cycleStallFlag.toNat ≤ n := by
  obtain ⟨-, hflag, hcycles⟩ := iterate_until_stop hram hi hstop hdb h0 n
  rw [cycleStall_iff hstop, hflag, hcycles]
  omega

/-! ## Flipping, stepping, reading -/

/-- Under constant pins that select a register, every cycle flips it. -/
theorem semiconj_flip (hram : C.Altsyncram) (hi : Experiment i) (hdb : i.weDB = true) :
    Function.Semiconj program (cycle C i)
      ((Op.flip (i.addr.extractLsb' 0 5) i.dataOut).apply C) := by
  intro s
  rw [cycle_op hram hi, op, hdb, if_pos rfl]

/-- With the controls at zero, every cycle is a step. -/
theorem semiconj_step (hram : C.Altsyncram) (hi : Experiment i) (hstop : i.stopAt = false)
    (hdb : i.weDB = false) : Function.Semiconj program (cycle C i) (step C) := by
  intro s
  have hcs : cycleStall i s = false := by rw [cycleStall, hstop, Bool.and_false]
  rw [cycle_op hram hi, op, hdb, hcs, if_neg Bool.false_ne_true, if_neg Bool.false_ne_true]
  exact step_program

/-- The state after a read of the memory. -/
def latched (a : BitVec 12) (s : State) : State := variant s s.regs (s.ram.words a)

/-- Under constant pins that read the memory, every cycle latches the same word. -/
theorem semiconj_latched (hram : C.Altsyncram) (hr : i.reset = false) (hre : i.memRe = true)
    (hwe : i.memWe = false) (hcsr : i.csrDB = false) (hdb : i.weDB = false) :
    Function.Semiconj program (cycle C i) (latched (i.addr.extractLsb' 3 12)) := by
  intro s
  have hst : coprocessorStall i s = true := by
    rw [coprocessorStall, hre]
    simp
  obtain ⟨hrden, hwren⟩ := dmemPort_stalled (C := C) hst
  have hwords := hram.words_of_not_wren (r := s.ram) (hwren.trans hwe)
  have haddr : (dmemPort C i s).address = i.addr.extractLsb' 3 12 := by
    simp only [dmemPort, hre, Bool.true_or, if_true]
  have hramNext : C.ramClock s.ram (dmemPort C i s) =
      ⟨s.ram.words, s.ram.words (i.addr.extractLsb' 3 12)⟩ := by
    refine Ram.ext hwords ?_
    rw [hram.reads _ _ (hrden.trans hre), hwords, haddr]
  rw [cycle_eq_posedge hr, posedge_stalled hr hst, hramNext, hdb, hcsr]
  simp only [Bool.and_false, Bool.false_and]
  rfl

theorem latched_iterate (a : BitVec 12) (s : State) (n : ℕ) :
    (latched a)^[n + 1] s = latched a s := by
  induction n with
  | zero => rfl
  | succ n ih =>
      rw [Function.iterate_succ_apply', ih]
      rfl

theorem apply_flip (r : BitVec 5) (mask : BitVec 64) (s : State) :
    (Op.flip r mask).apply C s = if r = 0 then s else { s with regs := bitflip r mask s.regs } :=
  rfl

theorem flip_involutive (r : BitVec 5) (mask : BitVec 64) :
    Function.Involutive ((Op.flip r mask).apply C) := by
  intro s
  simp only [apply_flip]
  split_ifs with hr
  · rfl
  · rw [bitflip_involutive r mask s.regs]

theorem flip_zero (r : BitVec 5) : (Op.flip r 0).apply C = id := by
  funext s
  rw [apply_flip, bitflip_zero]
  split_ifs <;> rfl

/-- Two flips of a register are one. -/
theorem flip_flip (r : BitVec 5) (a b : BitVec 64) (s : State) :
    (Op.flip r b).apply C ((Op.flip r a).apply C s) = (Op.flip r (a ^^^ b)).apply C s := by
  simp only [apply_flip]
  split_ifs with hr
  · rfl
  · simp only [bitflip, Function.update_self, Function.update_idem, BitVec.xor_assoc]

/-- Flips cancel in pairs. -/
theorem flip_iterate (r : BitVec 5) (mask : BitVec 64) (n : ℕ) :
    ((Op.flip r mask).apply C)^[n] = (Op.flip r (if Odd n then mask else 0)).apply C := by
  split_ifs with hodd
  · exact (flip_involutive r mask).iterate_odd hodd
  · rw [flip_zero, (flip_involutive r mask).iterate_even (Nat.not_odd_iff_even.mp hodd)]

/-! ## The end of the program -/

/-- The program has executed an `ebreak`. -/
def Finished (s : State) : Prop := s.ebreakFlag = 1

theorem finished_step (h : Finished s) : Finished (step C s) := by
  have hcsr : Inputs.idle.csrDB = false := by decide
  rw [Finished, step, cycle_eq_posedge rfl]
  simp only [posedge, hcsr, flopre, flopreInit, Bool.false_and, Bool.or_false, Bool.false_eq_true,
    if_false]
  have hbit : ∀ x : BitVec 3, x.getLsbD 0 = true → x.extractLsb' 0 1 = 1#1 := by decide
  cases hx : (ctl C Inputs.idle s).exceptSignal.getLsbD 0 with
  | true => exact (if_neg (by decide)).trans ((if_pos rfl).trans (hbit _ hx))
  | false => exact (if_neg (by decide)).trans ((if_neg (by decide)).trans h)

/-- The flag stays up. -/
theorem finished_mono {j n : ℕ} (hle : j ≤ n) (h : Finished ((step C)^[j] s)) :
    Finished ((step C)^[n] s) := by
  induction n, hle using Nat.le_induction with
  | base => exact h
  | succ n _ ih =>
      rw [Function.iterate_succ_apply']
      exact finished_step ih

end Core

namespace Injector

open PassiFlo.Core Loop Loop.Outcome Ports

variable {C : Chip} {wait : ℕ → ℕ} {m : Macros} {h : Host} {p : Pio} {g : State → State}

/-! ## The control register -/

/-- The bits of the control register, on the pins of the core. -/
structure Controls (p : Pio) (reset weDB memRe csrDB stopAt : Bool) : Prop where
  reset : p.pins.core.reset = reset
  weDB : p.pins.core.weDB = weDB
  memWe : p.pins.core.memWe = false
  memRe : p.pins.core.memRe = memRe
  csrDB : p.pins.core.csrDB = csrDB
  stopAt : p.pins.core.stopAt = stopAt

theorem controls {c : BitVec 6} (hp : p.ioControl = c) (hwe : c.getLsbD 2 = false) :
    Controls p (c.getLsbD 0) (c.getLsbD 1) (c.getLsbD 3) (c.getLsbD 4) (c.getLsbD 5) := by
  have hbit : ∀ k < 5, p.pins.core.control.getLsbD k = c.getLsbD (1 + k) := by
    intro k hk
    rw [← hp]
    exact (BitVec.getLsbD_extractLsb' ..).trans (by rw [decide_eq_true hk, Bool.true_and]; rfl)
  have hreset : p.pins.core.reset = c.getLsbD 0 := by
    rw [← hp]
    exact (congrArg (_ || ·) (by decide : (!(0b11#2).getLsbD 1) = false)).trans (Bool.or_false _)
  exact ⟨hreset, hbit 0 (by decide), (hbit 1 (by decide)).trans hwe, hbit 2 (by decide),
    hbit 3 (by decide), hbit 4 (by decide)⟩

/-! ## Accesses -/

/-- What the program is in. -/
def view (h : Host) : State := program h.machine.core

theorem iterate_core (p : Pio) (n : ℕ) (t : Board) :
    ((clock C p)^[n] t).core = (cycle C p.pins.core)^[n] t.core := by
  have hcore : Function.Semiconj Board.core (clock C p) (cycle C p.pins.core) := fun _ => rfl
  exact hcore.iterate_right n t

theorem semiconj_view (hg : Function.Semiconj program (cycle C p.pins.core) g) :
    Function.Semiconj (fun t : Board => program t.core) (clock C p) g :=
  fun t => hg t.core

/-- A write gives the core the time it takes. -/
theorem view_iowr (hg : Function.Semiconj program (cycle C h.pins.pins.core) g) (base : Base)
    (data : BitVec 32) :
    view (iowr C wait base data h) = g^[wait h.accesses + 1] (view h) :=
  write_view (semiconj_view hg) _

/-- So does a read. -/
theorem view_iord (hg : Function.Semiconj program (cycle C h.pins.pins.core) g) (base : Base) :
    view (iord C wait base h).2 = g^[wait h.accesses + 1] (view h) :=
  write_view (semiconj_view hg) id

/-! ## Holding a register -/

/-- The pins select a register and leave it alone. -/
structure Holds (p : Pio) : Prop where
  ioControl : p.ioControl = 0x2#6
  ioDataHigh : p.ioDataHigh = 0
  ioDataLow : p.ioDataLow = 0

theorem experiment_select (hp : p.ioControl = 0x2#6) :
    Experiment p.pins.core ∧ p.pins.core.weDB = true := by
  have hc := controls hp (by decide)
  exact ⟨⟨hc.reset, hc.memWe, hc.memRe, hc.csrDB⟩, hc.weDB⟩

/-- What a register write does to the program. -/
def flips (p : Pio) : Op := .flip (p.ioAddr.extractLsb' 0 5) (p.ioDataHigh ++ p.ioDataLow)

theorem semiconj_select (hram : C.Altsyncram) (hp : p.ioControl = 0x2#6) :
    Function.Semiconj program (cycle C p.pins.core) ((flips p).apply C) :=
  semiconj_flip hram (experiment_select hp).1 (experiment_select hp).2

theorem semiconj_holds (hram : C.Altsyncram) (hp : Holds p) :
    Function.Semiconj program (cycle C p.pins.core) id := by
  have hid : (flips p).apply C = id := by
    rw [flips, hp.ioDataHigh, hp.ioDataLow]
    exact flip_zero _
  rw [← hid]
  exact semiconj_select hram hp.ioControl

theorem view_iowr_holds (hram : C.Altsyncram) (hp : Holds h.pins) (base : Base)
    (data : BitVec 32) : view (iowr C wait base data h) = view h := by
  rw [view_iowr (semiconj_holds hram hp), Function.iterate_id, id]

/-- What the data ports show of a stalled core. -/
def shown (addr : BitVec 15) (s : State) : BitVec 64 :=
  if addr.getLsbD 5 then s.pc else s.regs (addr.extractLsb' 0 5)

theorem dataIn_select (hp : p.ioControl = 0x2#6) (s : State) :
    coprocessorIODataIn C p.pins.core (settle p.pins.core s) = shown p.ioAddr (program s) := by
  have hc := controls hp (by decide)
  have hsettle : settle p.pins.core s = program s := settle_eq_clear hc.reset hc.stopAt
  rw [hsettle, coprocessorIODataIn, if_neg (by rw [hc.memRe]; decide),
    if_neg (c := p.pins.core.csrDB = true) (by rw [hc.csrDB]; decide)]
  rfl

/-- The data ports, where they show the same all the time. -/
theorem iordData_fst {x : BitVec 64} (hseen : ∀ n, coprocessorIODataIn C h.pins.pins.core
    (settle h.pins.pins.core ((clock C h.pins)^[n] h.machine).core) = x) :
    (iordData C wait h).1 = x := by
  have hhigh : (iord C wait .ioDataHigh h).1 = x.extractLsb' 32 32 :=
    congrArg (BitVec.extractLsb' 32 32) (hseen _)
  have hlow : (iord C wait .ioDataLow (iord C wait .ioDataHigh h).2).1 = x.extractLsb' 0 32 := by
    have h := hseen (wait (h.accesses + 1) + (wait h.accesses + 1))
    rw [Function.iterate_add_apply] at h
    exact congrArg (BitVec.extractLsb' 0 32) h
  have hjoin : ∀ x : BitVec (32 + 32), x.extractLsb' 32 32 ++ x.extractLsb' 0 32 = x :=
    fun _ => BitVec.extractLsb'_append_extractLsb'
  rw [← hjoin x, ← hhigh, ← hlow]
  rfl

theorem iordData_holds (hram : C.Altsyncram) (hp : Holds h.pins) :
    (iordData C wait h).1 = shown h.pins.ioAddr (view h) ∧
      view (iordData C wait h).2 = view h := by
  have hid := semiconj_holds hram hp
  constructor
  · refine iordData_fst fun n => ?_
    rw [dataIn_select hp.ioControl, iterate_core, (hid.iterate_right n) _, Function.iterate_id]
    rfl
  · have hnext : (iord C wait .ioDataHigh h).2.pins = h.pins := rfl
    rw [iordData, view_iord (hnext ▸ hid), view_iord hid, Function.iterate_id, Function.iterate_id]
    rfl

/-- The host has the core hold a register, and the program is in `u`. -/
structure HeldAt (h : Host) (a : BitVec 15) (u : State) : Prop where
  pins : h.pins = ⟨0x2, a, 0, 0⟩
  view : view h = u

theorem HeldAt.holds {a : BitVec 15} {u : State} (hh : HeldAt h a u) : Holds h.pins := by
  rw [hh.pins]
  exact ⟨rfl, rfl, rfl⟩

theorem HeldAt.iowr_addr (hram : C.Altsyncram) (wait : ℕ → ℕ) {a : BitVec 15} {u : State}
    (hh : HeldAt h a u) (data : BitVec 32) :
    HeldAt (iowr C wait .ioAddr data h) (data.setWidth 15) u :=
  ⟨congrArg (Pio.write .ioAddr data) hh.pins, (view_iowr_holds hram hh.holds _ _).trans hh.view⟩

theorem HeldAt.iordData (hram : C.Altsyncram) (wait : ℕ → ℕ) {a : BitVec 15} {u : State}
    (hh : HeldAt h a u) :
    (iordData C wait h).1 = shown a u ∧ HeldAt (iordData C wait h).2 a u := by
  obtain ⟨hdata, hview⟩ := iordData_holds (C := C) hram hh.holds
  rw [hh.view, hh.pins] at hdata
  exact ⟨hdata, hh.pins, hview.trans hh.view⟩

/-! ## Setting the delay -/

/-- An access in reset. -/
theorem core_iowr_reset (hram : C.Altsyncram) (hnop : C.rom 0 = 0x00000013#32)
    {csrDB stopAt : Bool} (hp : Controls h.pins true false false csrDB stopAt) (base : Base)
    (data : BitVec 32) :
    (iowr C wait base data h).machine.core = heldInReset h.machine.core
      (resetFlag h.pins.pins.core h.machine.core.cycleStallFlag) := by
  have hcore : (iowr C wait base data h).machine.core =
      (cycle C h.pins.pins.core)^[wait h.accesses + 1] h.machine.core := iterate_core _ _ _
  rw [hcore, iterate_in_reset hram hnop hp.reset hp.weDB hp.memWe hp.memRe]

/-- The core at its start, with the delay as the stop count. -/
theorem setDelay_core (hram : C.Altsyncram) (hnop : C.rom 0 = 0x00000013#32) (wait : ℕ → ℕ)
    (m : Macros) (hp : h.pins = Pio.reset) :
    (setDelay C wait m h).machine.core =
        heldInReset h.machine.core (0#32 ++ m.injectDelay) ∧
      (setDelay C wait m h).pins =
        { ioControl := 0x20, ioAddr := 0x1000, ioDataHigh := 0, ioDataLow := 0 } := by
  obtain ⟨t, pins, accesses⟩ := h
  obtain rfl : pins = Pio.reset := hp
  constructor
  · unfold setDelay
    have hone : ∀ {h : Host}, h.pins.ioControl = 0x1#6 → ∀ base data,
        (iowr C wait base data h).machine.core = heldInReset h.machine.core 0 := by
      intro h hc base data
      have hbits := controls hc (by decide)
      rw [core_iowr_reset hram hnop hbits, resetFlag, hbits.stopAt]
      rfl
    have hset : ∀ {h : Host}, h.pins = ⟨0x31, 0x1000, 0, m.injectDelay⟩ → ∀ base data,
        (iowr C wait base data h).machine.core =
          heldInReset h.machine.core (0#32 ++ m.injectDelay) := by
      intro h hc base data
      have hbits := controls (c := 0x31#6) (congrArg Pio.ioControl hc) (by decide)
      have haddr : h.pins.pins.core.addr = 0x1000#15 := by rw [hc]; rfl
      have hdata : h.pins.pins.core.dataOut = 0#32 ++ m.injectDelay := by rw [hc]; rfl
      rw [core_iowr_reset hram hnop hbits, resetFlag, hbits.stopAt, hbits.csrDB, haddr, hdata]
      rfl
    have hkeep : ∀ {h : Host}, h.pins.ioControl = 0x21#6 → ∀ base data,
        (iowr C wait base data h).machine.core =
          heldInReset h.machine.core h.machine.core.cycleStallFlag := by
      intro h hc base data
      have hbits := controls hc (by decide)
      rw [core_iowr_reset hram hnop hbits, resetFlag, hbits.stopAt, hbits.csrDB]
      rfl
    rw [hkeep rfl, hkeep rfl, hkeep rfl, hkeep rfl, hset rfl, hone rfl, hone rfl, hone rfl,
      hone rfl]
    rfl
  · rfl

/-! ## Waiting for the stop -/

theorem experiment_count (hp : p.ioControl = 0x20#6) :
    Experiment p.pins.core ∧ p.pins.core.stopAt = true ∧ p.pins.core.weDB = false := by
  have hc := controls hp (by decide)
  exact ⟨⟨hc.reset, hc.memWe, hc.memRe, hc.csrDB⟩, hc.stopAt, hc.weDB⟩

theorem flags_stall (hp : p.ioControl = 0x20#6) (t : Board) :
    (readdata C .ioRiscvFlags p t &&& 0x1 == 0x1) = cycleStall p.pins.core t.core := by
  have hbit : ∀ (b : BitVec 1) (c : Bool),
      ((b ++ BitVec.ofBool c).setWidth 32 &&& 0x1#32 == 0x1#32) = c := by decide
  obtain ⟨hi, hstop, -⟩ := experiment_count hp
  rw [readdata, settle_eq_self hi.reset hstop]
  exact hbit _ _

section Stop

variable (hram : C.Altsyncram) (hp : h.pins.ioControl = 0x20#6) (h0 : h.machine.core.cycles = 0)

include hram hp h0

theorem flags_stall_iff (n : ℕ) :
    (readdata C .ioRiscvFlags h.pins ((clock C h.pins)^[n] h.machine) &&& 0x1 == 0x1) = true ↔
      h.machine.core.cycleStallFlag.toNat ≤ n := by
  obtain ⟨hi, hstop, hdb⟩ := experiment_count hp
  rw [flags_stall hp, iterate_core, stall_seen_iff hram hi hstop hdb h0]

/-- The stop is always reached. -/
theorem awaitStall_total (wait : ℕ → ℕ) {fuel : ℕ}
    (hfuel : h.machine.core.cycleStallFlag.toNat ≤ fuel) :
    ∃ q, awaitStall C wait fuel h = done q :=
  poll_total (fun n hn => (flags_stall_iff hram hp h0 n).mpr hn) hfuel

/-- **The stop.** By then the program has made as many steps as the delay says. -/
theorem awaitStall_done {fuel : ℕ} {q : BitVec 32 × Host}
    (hq : awaitStall C wait fuel h = done q) :
    q.2.pins = h.pins ∧
      ∀ base data, view (iowr C wait base data q.2) =
        (step C)^[h.machine.core.cycleStallFlag.toNat] (view h) := by
  obtain ⟨n, ⟨hpins, hmachine, -⟩, hseen⟩ := poll_done hq
  have hle := (flags_stall_iff hram hp h0 n).mp hseen
  obtain ⟨hi, hstop, hdb⟩ := experiment_count hp
  refine ⟨hpins, fun base data => ?_⟩
  have hcore : (iowr C wait base data q.2).machine.core =
      (cycle C h.pins.pins.core)^[wait q.2.accesses + 1 + (n + 1)] h.machine.core := by
    change ((clock C q.2.pins)^[wait q.2.accesses + 1] q.2.machine).core = _
    rw [hpins, hmachine, ← Function.iterate_add_apply, iterate_core]
  rw [view, hcore, (iterate_until_stop hram hi hstop hdb h0 _).1, Nat.min_eq_right (by omega)]
  rfl

end Stop

/-! ## Waiting for the end -/

theorem semiconj_free (hram : C.Altsyncram) (hp : p.ioControl = 0#6) :
    Function.Semiconj program (cycle C p.pins.core) (step C) := by
  have hc := controls hp (by decide)
  exact semiconj_step hram ⟨hc.reset, hc.memWe, hc.memRe, hc.csrDB⟩ hc.stopAt hc.weDB

/-- The program goes on while nobody looks. -/
theorem view_iterate_free (hram : C.Altsyncram) (hp : p.ioControl = 0#6) (n : ℕ) (t : Board) :
    program ((clock C p)^[n] t).core = (step C)^[n] (program t.core) := by
  rw [iterate_core]
  exact (semiconj_free hram hp).iterate_right n _

theorem flags_finish (hram : C.Altsyncram) (hp : p.ioControl = 0#6) (n : ℕ) (t : Board) :
    readdata C .ioRiscvFlags p ((clock C p)^[n] t) &&& 0x2 = 0x2 ↔
      Finished ((step C)^[n] (program t.core)) := by
  have hbit : ∀ (b : BitVec 1) (c : Bool),
      (b ++ BitVec.ofBool c).setWidth 32 &&& 0x2#32 = 0x2#32 ↔ b = 1 := by decide
  have hc := controls hp (by decide)
  have hsettle : settle p.pins.core ((clock C p)^[n] t).core =
      program ((clock C p)^[n] t).core := settle_eq_clear hc.reset hc.stopAt
  rw [readdata, hsettle, view_iterate_free hram hp]
  exact hbit _ _

/-- What is known after some rounds of the loop. -/
structure Watching (C : Chip) (h : Host) (w : Watch) (n : ℕ) : Prop where
  pins : w.host.pins = h.pins
  machine : w.host.machine = (clock C h.pins)^[n + 1] h.machine
  flags : w.flags = readdata C .ioRiscvFlags h.pins ((clock C h.pins)^[n] h.machine)
  watchdog : w.watchdog.toNat ≤ n
  running : ∀ j < w.watchdog.toNat, ¬ Finished ((step C)^[j] (view h))
  accesses : w.host.accesses ≤ h.accesses + n + 1

/-- The condition of the loop. -/
def goesOn (m : Macros) (w : Watch) : Bool :=
  w.flags &&& 0x2 != 0x2 && decide (w.watchdog ≤ m.programMaxDuration)

/-- The body of the loop. -/
def watch (C : Chip) (wait : ℕ → ℕ) (w : Watch) : Watch where
  flags := (iord C wait .ioRiscvFlags w.host).1
  watchdog := w.watchdog + 1
  host := (iord C wait .ioRiscvFlags w.host).2

/-- Before the loop. -/
def firstWatch (C : Chip) (wait : ℕ → ℕ) (h : Host) : Watch where
  flags := (iord C wait .ioRiscvFlags h).1
  watchdog := 0
  host := (iord C wait .ioRiscvFlags h).2

theorem awaitFinish_eq (fuel : ℕ) : awaitFinish C wait m fuel h =
    whileLoop (goesOn m) (fun w => done (watch C wait w)) fuel (firstWatch C wait h) := rfl

theorem watching_first : Watching C h (firstWatch C wait h) (wait h.accesses) :=
  ⟨rfl, rfl, rfl, Nat.zero_le _, fun _ hj => absurd hj (Nat.not_lt_zero _), by
    change h.accesses + 1 ≤ _
    omega⟩

theorem goesOn_eq_true_iff {w : Watch} : goesOn m w = true ↔
    ¬ w.flags &&& 0x2 = 0x2 ∧ w.watchdog ≤ m.programMaxDuration := by
  rw [goesOn, Bool.and_eq_true, decide_eq_true_iff, bne_iff_ne]

/-- A round is only made while the program runs. -/
theorem Watching.next (hram : C.Altsyncram) (hp : h.pins.ioControl = 0#6) {w : Watch} {n : ℕ}
    (hw : Watching C h w n) (hgo : goesOn m w = true) :
    ¬ Finished ((step C)^[n] (view h)) ∧
      Watching C h (watch C wait w) (n + 1 + wait w.host.accesses) := by
  have hrun : ¬ Finished ((step C)^[n] (view h)) := by
    intro hfin
    refine (goesOn_eq_true_iff.mp hgo).1 ?_
    rw [hw.flags]
    exact (flags_finish hram hp n h.machine).mpr hfin
  have hcount : (w.watchdog + 1).toNat ≤ w.watchdog.toNat + 1 := by
    rw [BitVec.toNat_add]
    exact Nat.mod_le _ _
  have hwatchdog := hw.watchdog
  have haccesses := hw.accesses
  have hlater : ∀ k, (clock C h.pins)^[k] w.host.machine =
      (clock C h.pins)^[n + 1 + k] h.machine := by
    intro k
    rw [hw.machine, ← Function.iterate_add_apply, Nat.add_comm]
  refine ⟨hrun, hw.pins, ?_, ?_, ?_, ?_, ?_⟩
  · change (clock C w.host.pins)^[wait w.host.accesses + 1] w.host.machine = _
    rw [hw.pins, hlater]
    congr 1
  · change readdata C .ioRiscvFlags w.host.pins
      ((clock C w.host.pins)^[wait w.host.accesses] w.host.machine) = _
    rw [hw.pins, hlater]
  · change (w.watchdog + 1).toNat ≤ _
    omega
  · intro j hj hfin
    have hlt : j < (w.watchdog + 1).toNat := hj
    exact hrun (finished_mono (by omega) hfin)
  · change w.host.accesses + 1 ≤ _
    omega

/-- **The end.** Either the flag was seen, or the watchdog ran out. -/
theorem awaitFinish_done (hram : C.Altsyncram) (hp : h.pins.ioControl = 0#6) {fuel : ℕ} {w : Watch}
    (hw : awaitFinish C wait m fuel h = done w) :
    ∃ n, Watching C h w n ∧ (Finished ((step C)^[n] (view h)) ∨
      m.programMaxDuration < w.watchdog) := by
  rw [awaitFinish_eq] at hw
  obtain ⟨hinv, hexit⟩ := whileLoop_invariant (I := fun w => ∃ n, Watching C h w n)
    (fun w w' hw hgo hround => by
      obtain ⟨n, hn⟩ := hw
      obtain rfl := Outcome.done.inj hround
      exact ⟨_, (hn.next hram hp hgo).2⟩) fuel _ ⟨_, watching_first⟩ hw
  obtain ⟨n, hn⟩ := hinv
  refine ⟨n, hn, ?_⟩
  have hnot : ¬ goesOn m w = true := by
    rw [hexit]
    exact Bool.false_ne_true
  rw [goesOn_eq_true_iff, not_and_or, not_not, hn.flags, BitVec.not_le] at hnot
  exact hnot.imp_left (flags_finish hram hp n h.machine).mp

/-- **When the loop ends**: if the program does, or the watchdog can run out. -/
theorem awaitFinish_total_iff (hram : C.Altsyncram) (wait : ℕ → ℕ) (m : Macros)
    (hp : h.pins.ioControl = 0#6) :
    (∃ fuel w, awaitFinish C wait m fuel h = done w) ↔
      m.programMaxDuration ≠ BitVec.allOnes 32 ∨ ∃ j, Finished ((step C)^[j] (view h)) := by
  constructor
  · intro hends
    obtain ⟨fuel, w, hw⟩ := hends
    obtain ⟨n, -, hfin | hlt⟩ := awaitFinish_done hram hp hw
    · exact .inr ⟨n, hfin⟩
    · refine .inl fun hmax => ?_
      have := w.watchdog.isLt
      rw [hmax, BitVec.lt_def, BitVec.toNat_allOnes] at hlt
      omega
  · intro hend
    rcases hend with hmax | ⟨j, hfin⟩
    · have hlt : m.programMaxDuration.toNat < 2 ^ 32 - 1 := by
        have hle := m.programMaxDuration.isLt
        have hne : m.programMaxDuration.toNat ≠ 2 ^ 32 - 1 := fun h =>
          hmax (BitVec.eq_of_toNat_eq (h.trans BitVec.toNat_allOnes.symm))
        omega
      obtain ⟨w, hw, -⟩ := whileLoop_total (goesOn m) (fun w => done (watch C wait w))
        (I := fun _ => True) (v := fun w => m.programMaxDuration.toNat + 1 - w.watchdog.toNat)
        (fun w _ hgo => ⟨_, rfl, trivial, by
          have hle := (goesOn_eq_true_iff.mp hgo).2
          have hnext : (w.watchdog + 1).toNat = w.watchdog.toNat + 1 := by
            rw [BitVec.le_def] at hle
            have hone : (1 : BitVec 32).toNat = 1 := rfl
            rw [BitVec.toNat_add, hone]
            omega
          rw [BitVec.le_def] at hle
          change _ - (w.watchdog + 1).toNat < _
          omega⟩) _ (firstWatch C wait h) trivial (Nat.le_refl _)
      exact ⟨_, w, (awaitFinish_eq _).trans hw⟩
    · obtain ⟨w, hw, -⟩ := whileLoop_total (goesOn m) (fun w => done (watch C wait w))
        (I := fun w => ∃ n, Watching C h w n)
        (v := fun w => h.accesses + j + 1 - w.host.accesses)
        (fun w hw hgo => by
          obtain ⟨n, hn⟩ := hw
          obtain ⟨hrun, hnext⟩ := hn.next hram hp hgo
          refine ⟨_, rfl, ⟨_, hnext⟩, ?_⟩
          have hlt : n < j := Nat.lt_of_not_le fun hle => hrun (finished_mono hle hfin)
          have haccesses := hn.accesses
          change _ - (w.host.accesses + 1) < _
          omega) _ (firstWatch C wait h) ⟨_, watching_first⟩ (Nat.le_refl _)
      exact ⟨_, w, (awaitFinish_eq _).trans hw⟩

/-! ## The memory dump -/

section Dump

variable (hram : C.Altsyncram)

include hram

theorem semiconj_dump (hp : p.ioControl = 0x8#6) :
    Function.Semiconj program (cycle C p.pins.core) (latched (p.ioAddr.extractLsb' 3 12)) := by
  have hc := controls hp (by decide)
  exact semiconj_latched hram hc.reset hc.memRe hc.memWe hc.csrDB hc.weDB

theorem dataIn_dump (hp : p.ioControl = 0x8#6) (s : State) :
    coprocessorIODataIn C p.pins.core (settle p.pins.core s) = (program s).ram.latch := by
  have hc := controls hp (by decide)
  have hre : p.pins.core.memRe = true := hc.memRe
  rw [coprocessorIODataIn, if_pos hre, readData, hram.output]
  rfl

variable (wait h)

/-- An access to the core while it reads its memory. -/
theorem view_iowr_dump (hp : h.pins.ioControl = 0x8#6) (base : Base) (data : BitVec 32) :
    view (iowr C wait base data h) = latched (h.pins.ioAddr.extractLsb' 3 12) (view h) := by
  rw [view_iowr (semiconj_dump hram hp), latched_iterate]

/-- The data ports, once the word is latched. -/
theorem iordData_dump (hp : h.pins.ioControl = 0x8#6)
    (hlatched : latched (h.pins.ioAddr.extractLsb' 3 12) (view h) = view h) :
    (iordData C wait h).1 = (view h).ram.words (h.pins.ioAddr.extractLsb' 3 12) ∧
      view (iordData C wait h).2 = view h := by
  have hdump := semiconj_dump hram hp
  constructor
  · refine iordData_fst fun n => ?_
    rw [dataIn_dump hram hp, iterate_core, (hdump.iterate_right n) _]
    change ((latched _)^[n] (view h)).ram.latch = _
    rw [Function.iterate_fixed hlatched, ← hlatched]
    rfl
  · have hnext : (iord C wait .ioDataHigh h).2.pins = h.pins := rfl
    rw [iordData, view_iord (hnext ▸ hdump), view_iord hdump, Function.iterate_fixed hlatched,
      Function.iterate_fixed hlatched]

/--
**A round of the dump.** The address is written twice: by the second write the RAM has
latched the word, at any speed of the host.
-/
theorem dumpWord_spec (hp : h.pins.ioControl = 0x8#6) (i : BitVec 32) :
    (dumpWord C wait i h).1 = (view h).ram.words ((i.setWidth 15).extractLsb' 3 12) ∧
      (dumpWord C wait i h).2.pins.ioControl = 0x8#6 ∧
      (view (dumpWord C wait i h).2).ram.words = (view h).ram.words := by
  have hfirst : view (iowr C wait .ioAddr i h) = _ :=
    view_iowr_dump wait h hram hp .ioAddr i
  have hsecond : view (iowr C wait .ioAddr i (iowr C wait .ioAddr i h)) =
      latched ((i.setWidth 15).extractLsb' 3 12) (view (iowr C wait .ioAddr i h)) :=
    view_iowr_dump wait (iowr C wait .ioAddr i h) hram hp .ioAddr i
  have hwords : (view (iowr C wait .ioAddr i (iowr C wait .ioAddr i h))).ram.words =
      (view h).ram.words := by
    rw [hsecond, hfirst]
    rfl
  have hlatched : latched ((i.setWidth 15).extractLsb' 3 12)
      (view (iowr C wait .ioAddr i (iowr C wait .ioAddr i h))) =
        view (iowr C wait .ioAddr i (iowr C wait .ioAddr i h)) := by
    rw [hsecond]
    rfl
  have hround : (dumpWord C wait i h).1 = _ ∧ view (dumpWord C wait i h).2 = _ :=
    iordData_dump wait (iowr C wait .ioAddr i (iowr C wait .ioAddr i h)) hram hp hlatched
  refine ⟨hround.1.trans (congrFun hwords _), hp, ?_⟩
  rw [hround.2, hwords]

/-- The dump leaves the memory as it is. -/
theorem dumpWords_spec (hp : h.pins.ioControl = 0x8#6) (k : ℕ) :
    (dumpWords C wait k h).pins.ioControl = 0x8#6 ∧
      (view (dumpWords C wait k h)).ram.words = (view h).ram.words := by
  induction k with
  | zero => exact ⟨hp, rfl⟩
  | succ k ih =>
      have hround := (dumpWord_spec wait _ hram ih.1 (BitVec.ofNat 32 (8 * k))).2
      exact ⟨hround.1, hround.2.trans ih.2⟩

end Dump

/-! ## The injection -/

/-- The part of a mask that arrives: all of it if an odd number of edges see it. -/
def arriving (edges : ℕ) (data : BitVec 32) : BitVec 32 := if Odd edges then data else 0

/-- The pins of the data and address registers of the injection. -/
def target (m : Macros) : BitVec 15 := m.injectAddress.setWidth 15

/-- The flip that the program sees. -/
def flipped (m : Macros) (highEdges lowEdges : ℕ) : Op :=
  .flip ((target m).extractLsb' 0 5)
    (arriving highEdges m.injectDataHigh ++ arriving lowEdges m.injectDataLow)

theorem arriving_zero (edges : ℕ) : arriving edges 0 = 0#32 := ite_self _

theorem view_iowr_select (hram : C.Altsyncram) (hp : h.pins.ioControl = 0x2#6) (base : Base)
    (data : BitVec 32) : view (iowr C wait base data h) =
      (Op.flip (h.pins.ioAddr.extractLsb' 0 5)
        (arriving (wait h.accesses + 1) h.pins.ioDataHigh ++
          arriving (wait h.accesses + 1) h.pins.ioDataLow)).apply C (view h) := by
  rw [view_iowr (semiconj_select hram hp), flips, flip_iterate]
  unfold arriving
  split_ifs <;> rfl

/--
**Set and clear.** Each half of the mask flips its bits once for every edge that sees it.
-/
theorem selectBits_spec (hram : C.Altsyncram) {a : BitVec 15} (hp : h.pins = ⟨0x2, a, 0, 0⟩) :
    view (selectBits C wait m h) =
        (Op.flip (a.extractLsb' 0 5) (arriving (wait (h.accesses + 3) + 1) m.injectDataHigh ++
          arriving (wait (h.accesses + 1) + 1) m.injectDataLow)).apply C (view h) ∧
      (selectBits C wait m h).pins = ⟨0x2, a, 0, 0⟩ := by
  obtain ⟨t, pins, accesses⟩ := h
  obtain rfl : pins = ⟨0x2, a, 0, 0⟩ := hp
  constructor
  · unfold selectBits
    rw [view_iowr_select hram rfl, view_iowr_holds hram ⟨rfl, rfl, rfl⟩, view_iowr_select hram rfl,
      view_iowr_holds hram ⟨rfl, rfl, rfl⟩]
    refine (flip_flip _ _ _ _).trans ?_
    rw [BitVec.xor_append]
    change (Op.flip _ ((arriving _ 0 ^^^ arriving _ m.injectDataHigh) ++
      (arriving _ m.injectDataLow ^^^ arriving _ 0))).apply C _ = _
    rw [arriving_zero, arriving_zero, BitVec.xor_zero, BitVec.zero_xor]
    rfl
  · rfl

/-- What the injection reads, and what it does to the program. -/
structure Injects (C : Chip) (m : Macros) (u u' : State) (x : Injected) : Prop where
  injectedPc : x.injectedPc = u.pc
  currentVal : x.currentVal = shown (target m) u
  newVal : x.newVal = shown (target m) u'
  view : view x.host = u'
  pins : x.host.pins = ⟨0x0, target m, 0, 0⟩

theorem inject_spec (hram : C.Altsyncram) (m : Macros) (hp : h.pins = ⟨0x20, 0x1000, 0, 0⟩)
    {u : State} (hu : ∀ base data, view (iowr C wait base data h) = u) :
    Injects C m u ((flipped m (wait (h.accesses + 10) + 1) (wait (h.accesses + 8) + 1)).apply C u)
      (inject C wait m h) := by
  have hfirst : HeldAt (iowr C wait .ioControl 0x2 h) 0x1000 u :=
    ⟨congrArg (Pio.write .ioControl 0x2) hp, hu _ _⟩
  obtain ⟨hpc, hread⟩ := (hfirst.iowr_addr hram wait 0x20).iordData hram wait
  obtain ⟨hcurrent, hread⟩ := (hread.iowr_addr hram wait m.injectAddress).iordData hram wait
  obtain ⟨hview, hpins⟩ := selectBits_spec (m := m) hram hread.pins
  rw [hread.view] at hview
  obtain ⟨hnew, hread⟩ := HeldAt.iordData hram wait ⟨hpins, hview⟩
  refine ⟨hpc, hcurrent, hnew, ?_, congrArg (Pio.write .ioControl 0x0) hread.pins⟩
  exact (view_iowr_holds hram hread.holds _ _).trans hread.view

/-! ## The results -/

theorem index_dump (k : Fin 4096) :
    ((BitVec.ofNat 32 (8 * k.val)).setWidth 15).extractLsb' 3 12 = BitVec.ofNat 12 k.val := by
  refine BitVec.eq_of_toNat_eq ?_
  have hk := k.isLt
  simp only [BitVec.extractLsb'_toNat, BitVec.toNat_setWidth, BitVec.toNat_ofNat,
    Nat.shiftRight_eq_div_pow]
  omega

/-- What the results say of the program. -/
structure Shown (m : Macros) (u : State) (w : Watch) (run : Soft.Run) : Prop where
  pc : run.pc = u.pc
  result : w.watchdog ≤ m.programMaxDuration → run.result = u.regs 10
  memory : ∀ k, run.memory k = u.ram.words (BitVec.ofNat 12 k.val)

theorem results_spec (hram : C.Altsyncram) (wait : ℕ → ℕ) (m : Macros) (x : Injected) {w : Watch}
    {a : BitVec 15} (hp : w.host.pins = ⟨0x0, a, 0, 0⟩) :
    Shown m (view (iowr C wait .ioControl 0x2 w.host)) w (results C wait m x w) := by
  have hfirst : HeldAt (iowr C wait .ioControl 0x2 w.host) a
      (view (iowr C wait .ioControl 0x2 w.host)) :=
    ⟨congrArg (Pio.write .ioControl 0x2) hp, rfl⟩
  obtain ⟨hpc, hread⟩ := (hfirst.iowr_addr hram wait 0x20).iordData hram wait
  have hselect := hread.iowr_addr hram wait 0xa
  obtain ⟨hresult, hlast⟩ := hselect.iordData hram wait
  -- both ways the core is held, and then reads its memory
  have hdump : ∀ r : BitVec 64 × Host, HeldAt r.2 0xa
      (view (iowr C wait .ioControl 0x2 w.host)) → ∀ k : Fin 4096,
        (dumpWord C wait (BitVec.ofNat 32 (8 * k.val))
          (dumpWords C wait k.val (iowr C wait .ioControl 0x8 r.2))).1 =
            (view (iowr C wait .ioControl 0x2 w.host)).ram.words (BitVec.ofNat 12 k.val) := by
    intro r hr k
    have hread : (iowr C wait .ioControl 0x8 r.2).pins.ioControl = 0x8#6 := rfl
    obtain ⟨hpins, hwords⟩ := dumpWords_spec wait _ hram hread k.val
    rw [(dumpWord_spec wait _ hram hpins _).1, hwords, index_dump, view_iowr_holds hram hr.holds,
      hr.view]
  refine ⟨hpc, fun hle => ?_, ?_⟩
  · exact (congrArg Prod.fst (if_neg (BitVec.not_lt.mpr hle))).trans hresult
  · refine hdump (if w.watchdog > m.programMaxDuration then (0, _) else iordData C wait _) ?_
    split_ifs
    · exact hselect
    · exact hlast

/-! ## The report -/

/-- The program when the delay has run out, from what the reset leaves of the core. -/
def delayed (C : Chip) (m : Macros) (s : State) : State :=
  (step C)^[m.injectDelay.toNat] (heldInReset s 0)

/-- A report of `n` steps after the flip. -/
structure Reports (C : Chip) (m : Macros) (before after : State) (n : ℕ) (run : Soft.Run) :
    Prop where
  injectedPc : run.injectedPc = before.pc
  currentVal : run.currentVal = shown (target m) before
  newVal : run.newVal = shown (target m) after
  pc : run.pc = ((step C)^[n] after).pc
  memory : ∀ k, run.memory k = ((step C)^[n] after).ram.words (BitVec.ofNat 12 k.val)
  programMaxDuration : run.programMaxDuration = m.programMaxDuration
  /-- A result is one of a program that has finished, in no fewer steps than reported. -/
  result : run.watchdog ≤ m.programMaxDuration →
    Finished ((step C)^[n] after) ∧ run.result = ((step C)^[n] after).regs 10
  watchdog : run.watchdog.toNat ≤ n
  running : ∀ j < run.watchdog.toNat, ¬ Finished ((step C)^[j] after)

/-- What the injector reports does not depend on the bound on the polls. -/
theorem main_mono {fuel fuel' : ℕ} (hle : fuel ≤ fuel') {run : Soft.Run}
    (hrun : main C wait m fuel h = done run) : main C wait m fuel' h = done run := by
  obtain ⟨q, hq, hrest⟩ := Outcome.bind_eq_done_iff.mp hrun
  obtain ⟨w, hw, hdone⟩ := Outcome.bind_eq_done_iff.mp hrest
  refine Outcome.bind_eq_done_iff.mpr ⟨q, whileLoop_mono hle _ hq, ?_⟩
  exact Outcome.bind_eq_done_iff.mpr ⟨w, whileLoop_mono hle _ hw, hdone⟩

/-- The injector has seen the core stop, whatever the bound on the polls. -/
structure Stalls (C : Chip) (wait : ℕ → ℕ) (m : Macros) (h : Host) (q : BitVec 32 × Host) :
    Prop where
  reached : ∀ fuel, m.injectDelay.toNat ≤ fuel →
    awaitStall C wait fuel (setDelay C wait m h) = done q
  injects : Injects C m (delayed C m h.machine.core)
    ((flipped m (wait (q.2.accesses + 8 + 2) + 1) (wait (q.2.accesses + 8) + 1)).apply C
      (delayed C m h.machine.core)) (inject C wait m q.2)

theorem exists_stalls (hram : C.Altsyncram) (hnop : C.rom 0 = 0x00000013#32) (wait : ℕ → ℕ)
    (m : Macros) (h : Host) (hp : h.pins = Pio.reset) : ∃ q, Stalls C wait m h q := by
  obtain ⟨hcore, hpins⟩ := setDelay_core hram hnop wait m hp
  have hcontrol : (setDelay C wait m h).pins.ioControl = 0x20#6 := congrArg Pio.ioControl hpins
  have hcycles : (setDelay C wait m h).machine.core.cycles = 0 := by
    rw [hcore]
    rfl
  have hflag : (setDelay C wait m h).machine.core.cycleStallFlag.toNat = m.injectDelay.toNat := by
    rw [hcore]
    change (0#32 ++ m.injectDelay).toNat = _
    rw [BitVec.toNat_append, BitVec.toNat_zero, Nat.zero_shiftLeft, Nat.zero_or]
  have hview : view (setDelay C wait m h) = heldInReset h.machine.core 0 := by
    rw [view, hcore]
    rfl
  have hstop : ∀ fuel, _ ≤ fuel → ∃ q, awaitStall C wait fuel _ = done q :=
    fun fuel hle => awaitStall_total hram hcontrol hcycles wait hle
  rw [hflag] at hstop
  obtain ⟨q, hq⟩ := hstop _ (Nat.le_refl _)
  obtain ⟨hqpins, hqview⟩ := awaitStall_done hram hcontrol hcycles hq
  rw [hflag, hview] at hqview
  refine ⟨q, fun fuel hle => ?_, inject_spec hram m (hqpins.trans hpins) hqview⟩
  obtain ⟨q', hq'⟩ := hstop fuel hle
  rw [hq', poll_unique hq' hq]

section Stalls

variable {q : BitVec 32 × Host}

/-- **The injector reports** exactly if the program ends or the watchdog can run out. -/
theorem Stalls.total_iff (hram : C.Altsyncram) (hq : Stalls C wait m h q) :
    (∃ fuel run, main C wait m fuel h = done run) ↔ m.programMaxDuration ≠ BitVec.allOnes 32 ∨
      ∃ j, Finished ((step C)^[j] ((flipped m (wait (q.2.accesses + 8 + 2) + 1)
        (wait (q.2.accesses + 8) + 1)).apply C (delayed C m h.machine.core))) := by
  have hends := awaitFinish_total_iff hram wait m (congrArg Pio.ioControl hq.injects.pins)
  rw [hq.injects.view] at hends
  refine Iff.trans ?_ hends
  constructor
  · intro hmain
    obtain ⟨fuel, run, hrun⟩ := hmain
    obtain ⟨q', hq', hrest⟩ := Outcome.bind_eq_done_iff.mp hrun
    obtain rfl : q = q' := poll_unique (hq.reached _ (Nat.le_refl _)) hq'
    obtain ⟨w, hw, -⟩ := Outcome.bind_eq_done_iff.mp hrest
    exact ⟨fuel, w, hw⟩
  · intro hfinish
    obtain ⟨fuel, w, hw⟩ := hfinish
    refine ⟨max m.injectDelay.toNat fuel, results C wait m (inject C wait m q.2) w, ?_⟩
    refine Outcome.bind_eq_done_iff.mpr ⟨q, hq.reached _ (Nat.le_max_left _ fuel), ?_⟩
    refine Outcome.bind_eq_done_iff.mpr ⟨w, ?_, rfl⟩
    exact whileLoop_mono (Nat.le_max_right _ _) _ hw

/-- **What it reports.** -/
theorem Stalls.reports (hram : C.Altsyncram) (hq : Stalls C wait m h q) {fuel : ℕ} {run : Soft.Run}
    (hrun : main C wait m fuel h = done run) :
    ∃ n, Reports C m (delayed C m h.machine.core) ((flipped m (wait (q.2.accesses + 8 + 2) + 1)
      (wait (q.2.accesses + 8) + 1)).apply C (delayed C m h.machine.core)) n run := by
  obtain ⟨q', hq', hrest⟩ := Outcome.bind_eq_done_iff.mp hrun
  obtain rfl : q = q' := poll_unique (hq.reached _ (Nat.le_refl _)) hq'
  obtain ⟨w, hw, hdone⟩ := Outcome.bind_eq_done_iff.mp hrest
  obtain rfl := Outcome.done.inj hdone
  have hinject := hq.injects
  have hfree : (inject C wait m q.2).host.pins.ioControl = 0#6 :=
    congrArg Pio.ioControl hinject.pins
  obtain ⟨n, hwatch, hend⟩ := awaitFinish_done hram hfree hw
  have hwpins := hwatch.pins.trans hinject.pins
  have hshown := results_spec hram wait m (inject C wait m q.2) hwpins
  have hwfree : w.host.pins.ioControl = 0#6 := congrArg Pio.ioControl hwpins
  have hlast : view (iowr C wait .ioControl 0x2 w.host) =
      (step C)^[wait w.host.accesses + 1 + (n + 1)] (view (inject C wait m q.2).host) := by
    have hwview : view w.host = (step C)^[n + 1] (view (inject C wait m q.2).host) := by
      rw [view, hwatch.machine]
      exact view_iterate_free hram hfree _ _
    rw [view_iowr (semiconj_free hram hwfree), hwview, ← Function.iterate_add_apply]
  have hrunning := hwatch.running
  have hwatchdog := hwatch.watchdog
  rw [hinject.view] at hlast hend hrunning
  rw [hlast] at hshown
  refine ⟨_, hinject.injectedPc, hinject.currentVal, hinject.newVal, hshown.pc, hshown.memory,
    rfl, fun hle => ⟨?_, hshown.result hle⟩, ?_, hrunning⟩
  · exact finished_mono (by omega) (hend.resolve_right (BitVec.not_lt.mpr hle))
  · change w.watchdog.toNat ≤ _
    omega

end Stalls

/--
**What the injector reports**, at any speed of the host. There is an access of the host such
that the report is that of `injectDelay` steps, a flip of the bits whose half of the mask
was seen by an odd number of clock edges, and further steps; and the host does report
exactly if the program ends or the watchdog can run out. The program begins with `nop`, and
the host finds its PIO registers as they are after a reset.
-/
theorem main_reports (hram : C.Altsyncram) (hnop : C.rom 0 = 0x00000013#32) (wait : ℕ → ℕ)
    (m : Macros) (h : Host) (hp : h.pins = Pio.reset) :
    ∃ k, let before := delayed C m h.machine.core
      let after := (flipped m (wait (k + 2) + 1) (wait k + 1)).apply C before
      ((∃ fuel run, main C wait m fuel h = done run) ↔
        m.programMaxDuration ≠ BitVec.allOnes 32 ∨ ∃ j, Finished ((step C)^[j] after)) ∧
      ∀ fuel run, main C wait m fuel h = done run → ∃ n, Reports C m before after n run := by
  obtain ⟨q, hq⟩ := exists_stalls hram hnop wait m h hp
  exact ⟨q.2.accesses + 8, hq.total_iff hram, fun _ _ hrun => hq.reports hram hrun⟩

/-- Nothing but `nop` and words that are no instructions. -/
def nops : Chip := Chip.ofProgram [0x00000013#32]

/-- Bit 0 of `x5`, after 3 steps. -/
def flipX5 : Macros where
  injectDelay := 3
  injectAddress := 5
  injectDataLow := 1
  injectDataHigh := 0
  programMaxDuration := 7

/-- A board that has just been programmed. -/
def programmed : Host where
  machine := { core := State.released (fun _ => 0) 0, led := 0 }
  pins := Pio.reset
  accesses := 0

theorem main_reports_flip : ∃ fuel run n, main nops (fun _ => 0) flipX5 fuel programmed = done run ∧
    Reports nops flipX5 (delayed nops flipX5 programmed.machine.core)
      ((flipped flipX5 1 1).apply nops (delayed nops flipX5 programmed.machine.core)) n run := by
  obtain ⟨k, hends, hreports⟩ := main_reports (C := nops) (Chip.ofProgram_altsyncram _) rfl
    (fun _ => 0) flipX5 programmed rfl
  obtain ⟨fuel, run, hrun⟩ := hends.mpr (.inl (by decide))
  obtain ⟨n, hn⟩ := hreports fuel run hrun
  exact ⟨fuel, run, n, hrun, hn⟩

end Injector

end PassiFlo
