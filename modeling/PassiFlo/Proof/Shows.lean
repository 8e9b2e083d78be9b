import PassiFlo.Isa.Hart
import PassiFlo.Proof.MachineCsrs
import PassiFlo.Proof.Privilege
import PassiFlo.Proof.ByteArray

/-!
# What the core shows of a hart

`Shows` relates a state of the core to the state of the hart it stands for. A state shows
one hart at most, and it shows one exactly if the invariants that the types of the hart
carry hold of it; from there on the CSRs of the core are those of the hart.
-/

namespace PassiFlo

open Isa Lanes

/-! ## The status word -/

theorem statusWord_mpp : ∀ (m : BitVec 2) (a b : Bool),
    (statusWord m a b).extractLsb' 11 2 = m := by
  decide

theorem statusWord_mpie : ∀ (m : BitVec 2) (a b : Bool), (statusWord m a b).getLsbD 7 = a := by
  decide

theorem statusWord_mie : ∀ (m : BitVec 2) (a b : Bool), (statusWord m a b).getLsbD 3 = b := by
  decide

theorem statusWord_inj {m m' : BitVec 2} {a a' b b' : Bool} :
    statusWord m a b = statusWord m' a' b' ↔ m = m' ∧ a = a' ∧ b = b' := by
  constructor
  · intro h
    have hm := congrArg (fun x => x.extractLsb' 11 2) h
    have ha := congrArg (fun x => x.getLsbD 7) h
    have hb := congrArg (fun x => x.getLsbD 3) h
    simp only [statusWord_mpp] at hm
    simp only [statusWord_mpie] at ha
    simp only [statusWord_mie] at hb
    exact ⟨hm, ha, hb⟩
  · intro h
    obtain ⟨rfl, rfl, rfl⟩ := h
    rfl

theorem statusWord_init : ∀ (m : BitVec 2) (a b : Bool),
    mstatusMerge mstatusInit (m ++ BitVec.ofBool a ++ BitVec.ofBool b) = statusWord m a b := by
  decide

theorem mstatusInit_eq : mstatusInit = statusWord 0b00#2 false false := by decide

/-- Merging replaces all that a status word leaves open. -/
theorem mstatusMerge_of_shape {m : BitVec 64} (h : m &&& ~~~mstatusMask = mstatusInit)
    (t : BitVec 4) : mstatusMerge m t = mstatusMerge mstatusInit t := by
  refine BitVec.eq_of_getLsbD_eq ?_
  intro k hk
  rw [mstatusMerge_getLsbD _ _ hk, mstatusMerge_getLsbD _ _ hk]
  have hbit := congrArg (fun x => x.getLsbD k) h
  simp only [BitVec.getLsbD_and, BitVec.getLsbD_not, hk, mstatusMask_getLsbD hk] at hbit
  split_ifs with h3 h7 h11 h12
  · rfl
  · rfl
  · rfl
  · rfl
  · have hmask : (k == 3 || k == 7 || k == 11 || k == 12) = false := by
      simp only [Bool.or_eq_false_iff, beq_eq_false_iff_ne]
      exact ⟨⟨⟨h3, h7⟩, h11⟩, h12⟩
    rw [hmask] at hbit
    simpa using hbit

theorem statusWord_shape : ∀ (m : BitVec 2) (a b : Bool),
    statusWord m a b &&& ~~~mstatusMask = mstatusInit := by
  decide

/-- Every writer of `mstatus` makes a status word of a status word. -/
theorem mstatusMerge_statusWord (m m' : BitVec 2) (a b a' b' : Bool) :
    mstatusMerge (statusWord m a b) (m' ++ BitVec.ofBool a' ++ BitVec.ofBool b') =
      statusWord m' a' b' := by
  rw [mstatusMerge_of_shape (statusWord_shape m a b), statusWord_init]

theorem maskedWrite_statusWord (m : BitVec 2) (a b : Bool) (x : BitVec 64) :
    maskedWrite mstatusMask (statusWord m a b) x =
      statusWord (x.extractLsb' 11 2) (x.getLsbD 7) (x.getLsbD 3) := by
  rw [← mstatusMerge_privStack_eq]
  exact mstatusMerge_statusWord m _ a b _ _

/-- A word of the right shape is a status word. -/
theorem eq_statusWord {m : BitVec 64} (h : m &&& ~~~mstatusMask = mstatusInit) :
    m = statusWord (m.extractLsb' 11 2) (m.getLsbD 7) (m.getLsbD 3) :=
  calc m = mstatusMerge m (privStack m) := (mstatusMerge_privStack m).symm
    _ = mstatusMerge mstatusInit (privStack m) := mstatusMerge_of_shape h _
    _ = statusWord (m.extractLsb' 11 2) (m.getLsbD 7) (m.getLsbD 3) := statusWord_init _ _ _

/-! ## The relation -/

namespace Core

variable {C : Chip} {i : Inputs} {s : State} {h : Hart}

/-- The state of the core stands for the hart. -/
structure Shows (C : Chip) (s : State) (h : Hart) : Prop where
  pc : s.pc = h.pc.val
  regs : s.regs = h.regs.val
  memory : ByteMem.ofWords s.ram.words = h.memory
  mode : s.mode = h.mode.bits
  mstatus : s.mstatus = h.mstatus
  mtvec : s.mtvec = h.mtvec.val
  mepc : s.mepc = h.mepc.val
  mcause : s.mcause = h.mcause
  mscratch : C.undriven = h.mscratch
  cycles : s.cycles = h.cycles

/-- **A state shows one hart at most.** -/
theorem Shows.unique {h' : Hart} (hs : Shows C s h) (hs' : Shows C s h') : h = h' := by
  have hpc : h.pc = h'.pc := CodeAddr.ext (hs.pc.symm.trans hs'.pc)
  have hregs : h.regs = h'.regs := Regs.ext (hs.regs.symm.trans hs'.regs)
  have hmode : h.mode = h'.mode := Privilege.bits_inj.mp (hs.mode.symm.trans hs'.mode)
  have hmtvec : h.mtvec = h'.mtvec := TrapVector.ext (hs.mtvec.symm.trans hs'.mtvec)
  have hmepc : h.mepc = h'.mepc := CodeAddr.ext (hs.mepc.symm.trans hs'.mepc)
  obtain ⟨hmpp, hmpie, hmie⟩ := statusWord_inj.mp (hs.mstatus.symm.trans hs'.mstatus)
  cases h
  cases h'
  simp only [Hart.mk.injEq]
  exact ⟨hpc, hregs, hs.memory.symm.trans hs'.memory, hmode, Privilege.bits_inj.mp hmpp, hmpie,
    hmie, hmtvec, hmepc, hs.mcause.symm.trans hs'.mcause, hs.mscratch.symm.trans hs'.mscratch,
    hs.cycles.symm.trans hs'.cycles⟩

theorem exists_privilege {b : BitVec 2} (h : Implemented b) : ∃ p : Privilege, b = p.bits := by
  rcases (implemented_iff b).mp h with hb | hb
  · exact ⟨.user, hb⟩
  · exact ⟨.machine, hb⟩

/-- **A state shows a hart** exactly if the invariants in the types of the hart hold of it. -/
theorem exists_shows_iff :
    (∃ h, Shows C s h) ↔ s.pc.extractLsb' 0 2 = 0 ∧ s.regs 0 = 0 ∧ ModesLegal s ∧
      s.mstatus &&& ~~~mstatusMask = mstatusInit ∧ s.mtvec &&& ~~~vectorMask = 0 ∧
      s.mepc.extractLsb' 0 2 = 0 := by
  constructor
  · intro hshown
    obtain ⟨h, hs⟩ := hshown
    have hlegal : ∀ p : Privilege, Implemented p.bits := by
      intro p
      cases p <;> decide
    refine ⟨?_, ?_, ⟨?_, ?_⟩, ?_, ?_, ?_⟩
    · rw [hs.pc]; exact h.pc.aligned
    · rw [hs.regs]; exact h.regs.zero
    · rw [hs.mode]; exact hlegal _
    · rw [hs.mstatus, Hart.mstatus, statusWord_mpp]; exact hlegal _
    · rw [hs.mstatus]; exact statusWord_shape _ _ _
    · rw [hs.mtvec]; exact h.mtvec.implemented
    · rw [hs.mepc]; exact h.mepc.aligned
  · intro hinv
    obtain ⟨hpc, hregs, hmodes, hmstatus, hmtvec, hmepc⟩ := hinv
    obtain ⟨mode, hmode⟩ := exists_privilege hmodes.mode
    obtain ⟨mpp, hmpp⟩ := exists_privilege hmodes.mpp
    refine ⟨
      { pc := ⟨s.pc, hpc⟩
        regs := ⟨s.regs, hregs⟩
        memory := ByteMem.ofWords s.ram.words
        mode := mode
        mpp := mpp
        mpie := s.mstatus.getLsbD 7
        mie := s.mstatus.getLsbD 3
        mtvec := ⟨s.mtvec, hmtvec⟩
        mepc := ⟨s.mepc, hmepc⟩
        mcause := s.mcause
        mscratch := C.undriven
        cycles := s.cycles },
      ⟨rfl, rfl, rfl, hmode, ?_, rfl, rfl, rfl, rfl, rfl⟩⟩
    rw [Hart.mstatus, ← hmpp]
    exact eq_statusWord hmstatus

/-! ## Reading the state -/

theorem Shows.fetch (hs : Shows C s h) : instrMemText C s = h.fetch C.rom := by
  rw [instrMemText, hs.pc]
  rfl

theorem Shows.mie (hs : Shows C s h) : mie s = h.mie := by
  rw [Core.mie, hs.mstatus]
  exact statusWord_mie _ _ _

theorem Shows.mpie (hs : Shows C s h) : s.mstatus.getLsbD 7 = h.mpie := by
  rw [hs.mstatus]
  exact statusWord_mpie _ _ _

theorem Shows.mpp (hs : Shows C s h) : s.mstatus.extractLsb' 11 2 = h.mpp.bits := by
  rw [hs.mstatus]
  exact statusWord_mpp _ _ _

/-- The handler the core goes to. -/
theorem Shows.vector (hs : Shows C s h) : s.mtvec.extractLsb' 2 62 ++ 0#2 = h.mtvec.addr.val := by
  rw [hs.mtvec]
  rfl

/-- **The CSRs of the core** read as those of the hart. -/
theorem Shows.csr (hs : Shows C s h) (c : Csr) : csrRead C s c.addr = h.csr c := by
  cases c with
  | misa | mvendorid | marchid | mimpid | mhartid => rfl
  | mscratch => exact hs.mscratch
  | mstatus => exact hs.mstatus
  | mcause => exact hs.mcause
  | mtvec => exact hs.mtvec
  | mepc => exact hs.mepc
  | cycle => exact hs.cycles

end Core

end PassiFlo
