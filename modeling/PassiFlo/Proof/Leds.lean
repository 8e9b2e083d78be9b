import PassiFlo.Proof.ByteArray
import PassiFlo.Rtl.Board

/-!
# What the LEDs show

The board is meant to show the content of position 0 of the data memory. Its `led`
register is loaded by stores whose full 64-bit address is zero, while the RAM decodes
fifteen bits of it and takes writes from the host as well. So LEDs and memory agree
exactly as long as nothing else changes byte 0.
-/

namespace PassiFlo

open Lanes Clocked

/-- The word and the lane of an address are zero when its low fifteen bits are. -/
theorem decodes_zero_iff {n : Nat} (x : BitVec n) :
    0 = x.extractLsb' 3 12 ∧ (x.extractLsb' 0 3).toNat ≤ 0 ↔ x.extractLsb' 0 15 = 0 := by
  rw [eq_comm (a := (0 : BitVec 12)), ← BitVec.toNat_inj, ← BitVec.toNat_inj,
    BitVec.extractLsb'_toNat, BitVec.extractLsb'_toNat, BitVec.extractLsb'_toNat,
    Nat.shiftRight_eq_div_pow, Nat.shiftRight_eq_div_pow]
  change x.toNat / 2 ^ 3 % 2 ^ 12 = 0 ∧ x.toNat / 2 ^ 0 % 2 ^ 3 ≤ 0 ↔
    x.toNat / 2 ^ 0 % 2 ^ 15 = 0
  omega

namespace Board

variable {C : Chip} {i : Inputs} {s : State} {b : BoardIn} {t : Board}

/-- The LEDs show byte 0 of the data memory. -/
def Mirrors (t : Board) : Prop := t.LED = byte (t.core.ram.words 0) 0

/--
A write that changes byte 0 behind the back of `led`: one of the host at address 0, or a
store to some other address with the same low fifteen bits.
-/
def ChangesBehind (C : Chip) (i : Inputs) (s : State) : Prop :=
  i.memWe = true ∧ i.addr = 0 ∧ byte i.dataOut 0 ≠ byte (s.ram.words 0) 0 ∨
    Core.coprocessorStall i s = false ∧ opcode (Core.instrMemText C s) = 0b0100011#7 ∧
      storeAddr s (Core.instrMemText C s) ≠ 0 ∧
      (storeAddr s (Core.instrMemText C s)).extractLsb' 0 15 = 0 ∧
      byte (s.regs (rs2 (Core.instrMemText C s))) 0 ≠ byte (s.ram.words 0) 0

instance (C : Chip) (i : Inputs) (s : State) : Decidable (ChangesBehind C i s) :=
  inferInstanceAs (Decidable (_ ∧ _ ∧ _ ∨ _ ∧ _ ∧ _ ∧ _ ∧ _))

/-! ## Byte 0 -/

theorem posedge_host_zero (hram : C.Altsyncram) (hwe : i.memWe = true) :
    byte ((Core.posedge C i s).ram.words 0) 0 =
      if i.addr = 0 then byte i.dataOut 0 else byte (s.ram.words 0) 0 := by
  have haddr : i.addr.extractLsb' 0 15 = i.addr := by
    refine BitVec.eq_of_getLsbD_eq ?_
    intro k hk
    simp [hk]
  have hzero := decodes_zero_iff i.addr
  rw [haddr] at hzero
  rw [Core.posedge_host_byte hram hwe 0 (by decide)]
  by_cases h : i.addr = 0
  · obtain ⟨hword, hlane⟩ := hzero.mpr h
    rw [if_pos ⟨hword, hlane, by omega⟩, if_pos h, Nat.zero_sub]
  · rw [if_neg fun hc => h (hzero.mp ⟨hc.1, hc.2.1⟩), if_neg h]

theorem posedge_store_zero (hram : C.Altsyncram) (h : Core.coprocessorStall i s = false)
    (hop : opcode (Core.instrMemText C s) = 0b0100011#7) :
    byte ((Core.posedge C i s).ram.words 0) 0 =
      if (storeAddr s (Core.instrMemText C s)).extractLsb' 0 15 = 0 then
        byte (s.regs (rs2 (Core.instrMemText C s))) 0
      else byte (s.ram.words 0) 0 := by
  have hzero := decodes_zero_iff (storeAddr s (Core.instrMemText C s))
  have hpos : 0 < accessBytes (storeSize (funct3 (Core.instrMemText C s))) := Nat.two_pow_pos _
  rw [Core.posedge_store_byte hram h hop 0 (by decide)]
  by_cases hlow : (storeAddr s (Core.instrMemText C s)).extractLsb' 0 15 = 0
  · obtain ⟨hword, hlane⟩ := hzero.mpr hlow
    rw [if_pos ⟨hword, hlane, by omega⟩, if_pos hlow, Nat.zero_sub]
  · rw [if_neg fun hc => hlow (hzero.mp ⟨hc.1, hc.2.1⟩), if_neg hlow]

/-- Without a write, all of memory stays. -/
theorem posedge_idle_words (hram : C.Altsyncram) (hwe : i.memWe = false)
    (hst : ¬ (Core.coprocessorStall i s = false ∧ opcode (Core.instrMemText C s) = 0b0100011#7)) :
    (Core.posedge C i s).ram.words = s.ram.words := by
  cases hc : Core.coprocessorStall i s with
  | true =>
      refine hram.words_of_not_wren ?_
      rw [(Core.dmemPort_stalled hc).2, hwe]
  | false => exact Core.posedge_not_store_words hram hc fun hop => hst ⟨hc, hop⟩

/-! ## The led register -/

/-- `led` is loaded by the stores to address 0 and by nothing else. -/
theorem ledEnable_iff : ledEnable C i s = true ↔
    Core.coprocessorStall i s = false ∧ opcode (Core.instrMemText C s) = 0b0100011#7 ∧
      storeAddr s (Core.instrMemText C s) = 0 := by
  rw [ledEnable, Bool.and_eq_true, beq_iff_eq]
  constructor
  · intro hwrite
    obtain ⟨hwe, haddr⟩ := hwrite
    have hst : Core.coprocessorStall i s = false := by
      rw [Bool.eq_false_iff]
      intro hst
      rw [Core.dmWriteEnable, Core.ctl_stalled hst] at hwe
      exact Bool.false_ne_true hwe
    have hop : opcode (Core.instrMemText C s) = 0b0100011#7 := by
      rw [Core.dmWriteEnable, Core.ctl_unstalled hst] at hwe
      exact maindec_memWrite hwe
    exact ⟨hst, hop, (Core.dmAddr_store hst hop).symm.trans haddr⟩
  · intro hstore
    obtain ⟨hst, hop, haddr⟩ := hstore
    refine ⟨?_, (Core.dmAddr_store hst hop).trans haddr⟩
    rw [Core.dmWriteEnable, Core.ctl_store hst hop]
    rfl

theorem cycle_LED : (cycle C b t).LED =
    if ledEnable C b.core (Core.settle b.core t.core) then
      byte ((Core.settle b.core t.core).regs
        (rs2 (Core.instrMemText C (Core.settle b.core t.core)))) 0
    else t.LED := by
  rw [LED, cycle]
  split_ifs <;> rfl

/-- A store to address 0 puts its low byte in both places. -/
theorem mirrors_store (hram : C.Altsyncram)
    (h : ledEnable C b.core (Core.settle b.core t.core) = true) : Mirrors (cycle C b t) := by
  obtain ⟨hst, hop, haddr⟩ := ledEnable_iff.mp h
  rw [Mirrors, cycle_LED, if_pos h]
  change _ = byte ((Core.posedge C b.core (Core.settle b.core t.core)).ram.words 0) 0
  rw [posedge_store_zero hram hst hop, haddr]
  rfl

/-- **The step.** LEDs and memory stay equal exactly if byte 0 is not changed behind `led`. -/
theorem mirrors_cycle (hram : C.Altsyncram) (h : Mirrors t) :
    Mirrors (cycle C b t) ↔ ¬ ChangesBehind C b.core (Core.settle b.core t.core) := by
  have hold : t.LED = byte ((Core.settle b.core t.core).ram.words 0) 0 := h
  cases hen : ledEnable C b.core (Core.settle b.core t.core) with
  | true =>
      refine iff_of_true (mirrors_store hram hen) ?_
      obtain ⟨hst, -, haddr⟩ := ledEnable_iff.mp hen
      intro hwrites
      rcases hwrites with ⟨hwe, -⟩ | ⟨-, -, hne, -⟩
      · exact absurd hwe (Bool.eq_false_iff.mp (Core.stall_eq_false_iff.mp hst).2.2.2.1)
      · exact hne haddr
  | false =>
      rw [Mirrors, cycle_LED, hen, if_neg Bool.false_ne_true, hold]
      change _ = byte ((Core.posedge C b.core (Core.settle b.core t.core)).ram.words 0) 0 ↔ _
      generalize Core.settle b.core t.core = s at hen ⊢
      by_cases hwe : b.core.memWe = true
      · have hst : Core.coprocessorStall b.core s ≠ false := fun hst =>
          absurd hwe (Bool.eq_false_iff.mp (Core.stall_eq_false_iff.mp hst).2.2.2.1)
        rw [posedge_host_zero hram hwe, ChangesBehind, or_iff_left fun hc => hst hc.1]
        by_cases haddr : b.core.addr = 0
        · rw [if_pos haddr, and_iff_right hwe, and_iff_right haddr, not_not]
          exact eq_comm
        · rw [if_neg haddr]
          exact iff_of_true rfl fun hc => haddr hc.2.1
      by_cases hst : Core.coprocessorStall b.core s = false ∧
          opcode (Core.instrMemText C s) = 0b0100011#7
      · have hne : storeAddr s (Core.instrMemText C s) ≠ 0 := fun haddr =>
          Bool.false_ne_true (hen.symm.trans (ledEnable_iff.mpr ⟨hst.1, hst.2, haddr⟩))
        rw [posedge_store_zero hram hst.1 hst.2, ChangesBehind, or_iff_right fun hc => hwe hc.1,
          and_iff_right hst.1, and_iff_right hst.2, and_iff_right hne]
        by_cases hlow : (storeAddr s (Core.instrMemText C s)).extractLsb' 0 15 = 0
        · rw [if_pos hlow, and_iff_right hlow, not_not]
          exact eq_comm
        · rw [if_neg hlow]
          exact iff_of_true rfl fun hc => hlow hc.1
      · rw [posedge_idle_words hram (Bool.eq_false_iff.mpr hwe) hst]
        refine iff_of_true rfl ?_
        intro hled
        rcases hled with ⟨hc, -⟩ | ⟨h1, h2, -⟩
        · exact hwe hc
        · exact hst ⟨h1, h2⟩

/-! ## Runs -/

/--
**LEDs mirror memory.** After a store to address 0, the LEDs show byte 0 in every later
state exactly in the runs that never change it behind the back of `led`.
-/
theorem led_mirrors_iff (hram : C.Altsyncram)
    (hstore : ledEnable C b.core (Core.settle b.core t.core) = true) (bs : List BoardIn) :
    (∀ p, p <+: bs → Mirrors (run C p (cycle C b t))) ↔
      Along (cycle C) (fun b t => ¬ ChangesBehind C b.core (Core.settle b.core t.core)) bs
        (cycle C b t) :=
  forall_prefix_iff_along (fun _ _ h => mirrors_cycle hram h) bs _ (mirrors_store hram hstore)

/-- `sd x0, 0(x0)`. -/
def storeZero : Chip := Chip.ofProgram [0x00003023#32]

/-- No key pressed, nothing asked of the core. -/
def idle : BoardIn :=
  { key := 0b11#2, nios2IOControl := 0, nios2IOAddr := 0, nios2IODataOutH := 0
    nios2IODataOutL := 0 }

def released : Board := { core := State.released (fun _ => 0) 0, led := 0xff#64 }

theorem led_mirrors_idle :
    Mirrors (run storeZero [idle, idle] (cycle storeZero idle released)) :=
  (led_mirrors_iff (Chip.ofProgram_altsyncram _) (by decide +kernel) [idle, idle]).mpr
    ⟨by decide +kernel, by decide +kernel, trivial⟩ _ List.prefix_rfl

/-- The host writes 1 to address 0; the LEDs stay dark. -/
theorem led_mirrors_host :
    ¬ ∀ (C : Chip) (b : BoardIn) (t : Board) (bs : List BoardIn), C.Altsyncram →
      Core.Reachable C t.core → ledEnable C b.core (Core.settle b.core t.core) = true →
        ∀ p, p <+: bs → Mirrors (run C p (cycle C b t)) := by
  intro h
  have hm := h storeZero idle released
    [{ idle with nios2IOControl := 0b000100#6, nios2IODataOutL := 1 }]
    (Chip.ofProgram_altsyncram _) (Core.reachable_released _ _ _) (by decide +kernel) _
    (List.prefix_refl _)
  unfold Mirrors at hm
  revert hm
  decide +kernel

end Board

end PassiFlo
