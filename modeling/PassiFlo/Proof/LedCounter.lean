import PassiFlo.Lib.Counted
import PassiFlo.Proof.Blocks
import PassiFlo.Proof.Leds

/-!
# The LED counter

`rv64-led-counter.s` on the board. The program knows no other clock than the core, so the
LEDs count at a fixed rate: a step of the count takes four cycles, and a round 1022.
-/

namespace PassiFlo

open Isa Isa.Reg Lanes Counted

namespace LedCounter

open PassiFlo.Core (Shows step step_advance not_deviates_plain fetch_code)

/-- The program. -/
def code : List Instr :=
  [ -- setup
    li a1 255,
    -- start
    .op .add a0 zero zero,
    -- loop
    .opImm .addi a0 a0 1, .opImm .addi a0 a0 0, sdZero a0 0, branchBy .bne a0 a1 (-12),
    branchBy .beq zero zero (-20)]

variable {C : Chip} {t : Board} {h h' : Hart} {u k q : ℕ} {led : BitVec 8}

/-! ## The LEDs in one cycle -/

/-- One cycle of the board with nothing asked of it. -/
def tick (C : Chip) (t : Board) : Board := Board.cycle C Board.idle t

/-- Whatever is not a store leaves the LEDs alone. -/
theorem tick_LED (hop : opcode (Core.instrMemText C t.core) ≠ 0b0100011#7) :
    (tick C t).LED = t.LED := by
  rw [tick, Board.cycle_LED]
  refine if_neg fun hen => hop ?_
  exact (Board.ledEnable_iff.mp hen).2.1

/-- A store to address 0 is shown. -/
theorem tick_LED_store {r : BitVec 5} (h0 : t.core.regs 0 = 0)
    (hw : Core.instrMemText C t.core = (sdZero r 0).encode) :
    (tick C t).LED = byte (t.core.regs r) 0 := by
  have hw' : Core.instrMemText C (Core.settle Inputs.idle t.core) = _ := hw
  obtain ⟨hop, hr, -, haddr⟩ := Core.store_fields hw'
  have hzero : ((0 : BitVec 12).extractLsb' 5 7 ++ (0 : BitVec 12).extractLsb' 0 5).signExtend 64 =
      0#64 := by decide
  have hsettled : (Core.settle Inputs.idle t.core).regs 0 = 0#64 := h0
  rw [hsettled, BitVec.zero_add, hzero] at haddr
  rw [tick, Board.cycle_LED]
  refine (if_pos (Board.ledEnable_iff.mpr ⟨Core.stall_of_control rfl, hop, haddr⟩)).trans ?_
  exact congrArg (fun r => byte (t.core.regs r) 0) hr

/-! ## The count -/

/-- What the LEDs show `k` cycles after the setup. -/
def count (led : BitVec 8) (k : ℕ) : BitVec 8 :=
  if k < 4 then led else if k % 1022 < 4 then 255 else BitVec.ofNat 8 (k % 1022 / 4)

theorem count_stays (hk : k % 1022 = u) (hu : (u + 1) % 4 ≠ 0) :
    count led (k + 1) = count led k := by
  unfold count
  by_cases hfirst : k < 4
  · rw [if_pos (by omega), if_pos hfirst]
  rw [if_neg (by omega), if_neg hfirst, hk]
  by_cases hround : u = 1021
  · rw [if_pos (by omega), if_neg (by omega), hround]
    rfl
  · rw [show (k + 1) % 1022 = u + 1 by omega]
    by_cases hu4 : u < 4
    · rw [if_pos (by omega), if_pos hu4]
    · rw [if_neg (by omega), if_neg hu4, show (u + 1) / 4 = u / 4 by omega]

theorem count_store (hk : k % 1022 = 4 * q + 3) :
    count led (k + 1) = BitVec.ofNat 8 (q + 1) := by
  have hnext : (k + 1) % 1022 = 4 * q + 4 := by omega
  rw [count, if_neg (by omega), hnext, if_neg (by omega), show (4 * q + 4) / 4 = q + 1 by omega]

/-! ## The program -/

/-- Where the program is, by the cycle of the round, and how far it has counted. -/
inductive Phase : ℕ → Hart → Prop
  | start {h : Hart} : h.pc = origin.plus 1 → Phase 0 h
  | loop {h : Hart} {q : ℕ} : q < 255 → h.pc = origin.plus 2 →
      h.regs.val a0 = BitVec.ofNat 64 q → Phase (4 * q + 1) h
  | nop {h : Hart} {q : ℕ} : q < 255 → h.pc = origin.plus 3 →
      h.regs.val a0 = BitVec.ofNat 64 (q + 1) → Phase (4 * q + 2) h
  | store {h : Hart} {q : ℕ} : q < 255 → h.pc = origin.plus 4 →
      h.regs.val a0 = BitVec.ofNat 64 (q + 1) → Phase (4 * q + 3) h
  | branch {h : Hart} {q : ℕ} : q < 255 → h.pc = origin.plus 5 →
      h.regs.val a0 = BitVec.ofNat 64 (q + 1) → Phase (4 * q + 4) h
  | again {h : Hart} : h.pc = origin.plus 6 → Phase 1021 h

/-- The board `k` cycles after the setup. -/
def Counting (C : Chip) (led : BitVec 8) (k : ℕ) (t : Board) : Prop :=
  t.LED = count led k ∧ ∃ h, Shows C t.core h ∧ h.regs.val a1 = 255 ∧ Phase (k % 1022) h

/-- An instruction of the code that computes, and is no store. -/
theorem tick_plain (hram : C.Altsyncram) (hcode : Code C.rom origin code) (hs : Shows C t.core h)
    {n : ℕ} {x : Instr} (hx : code[n]? = some x) (hplain : x.plain = true)
    (hop : opcode x.encode ≠ 0b0100011#7) (hpc : h.pc = origin.plus n) :
    Shows C (tick C t).core (h.advance x) ∧ (h.advance x).pc = origin.plus (n + 1) ∧
      (tick C t).LED = t.LED := by
  have hfetch := fetch_code C.rom hcode hx hpc
  refine ⟨step_advance hram hs hfetch (not_deviates_plain hs hplain), ?_, tick_LED ?_⟩
  · rw [(Hart.advance_plain hplain).1, hpc, CodeAddr.next_plus]
  · rw [hs.fetch, hfetch]
    exact hop

/-- A branch of the code. -/
theorem tick_branch (hram : C.Altsyncram) (hcode : Code C.rom origin code) (hs : Shows C t.core h)
    {n m : ℕ} {o : BranchOp} {r r' : BitVec 5} {x : BitVec 13} (ho : o.signed = false)
    (hx : code[n]? = some (branchBy o r r' x)) (heven : x.getLsbD 0 = false)
    (hpc : h.pc = origin.plus n)
    (hoffset : BitVec.ofNat 64 (4 * n) + x.signExtend 64 = BitVec.ofNat 64 (4 * m)) :
    Shows C (tick C t).core { h with
      pc := if o.taken (h.regs.val r) (h.regs.val r') then origin.plus m else origin.plus (n + 1)
      cycles := h.cycles + 1 } ∧ (tick C t).LED = t.LED := by
  have hfetch := fetch_code C.rom hcode hx hpc
  have hs' := Core.step_branchBy (a := origin.plus m) hram hs ho hfetch heven
    (by rw [hpc]; exact origin.plus_offset hoffset)
  rw [hpc, CodeAddr.next_plus] at hs'
  refine ⟨hs', tick_LED ?_⟩
  rw [hs.fetch, hfetch, branchBy, Instr.encode, opcode_word]
  decide

/-- The loop is left with the last value. -/
theorem taken_iff (hq : q < 255) :
    BranchOp.bne.taken (BitVec.ofNat 64 (q + 1)) 255 = decide (q < 254) := by
  by_cases hlast : q < 254
  · rw [decide_eq_true hlast]
    refine bne_iff_ne.mpr fun heq => ?_
    have hval := congrArg BitVec.toNat heq
    rw [BitVec.toNat_ofNat, Nat.mod_eq_of_lt (by omega)] at hval
    change q + 1 = 255 at hval
    omega
  · obtain rfl : q = 254 := by omega
    rfl

/-- **One cycle** of the count. -/
theorem counting_tick (hram : C.Altsyncram) (hcode : Code C.rom origin code) (k : ℕ) :
    Leads (tick C) 1 (Counting C led k) (Counting C led (k + 1)) := by
  intro t hcount
  obtain ⟨hLED, h, hs, ha1, hphase⟩ := hcount
  generalize hk : k % 1022 = u at hphase
  change Counting C led (k + 1) (tick C t)
  cases hphase with
  | start hpc =>
      obtain ⟨hs', hpc', hLED'⟩ := tick_plain hram hcode hs (n := 1) rfl rfl
        (by rw [Instr.encode, opcode_word]; decide) hpc
      refine ⟨?_, _, hs', (Regs.write_val (by decide)).trans ha1, ?_⟩
      · rw [hLED', hLED, count_stays hk (by decide)]
      · rw [show (k + 1) % 1022 = 4 * 0 + 1 by omega]
        refine .loop (by decide) hpc' ((Regs.write_val (by decide)).trans ((if_pos rfl).trans ?_))
        change h.regs.val 0 + h.regs.val 0 = _
        rw [h.regs.zero]
        rfl
  | @loop _ q hq hpc ha0 =>
      obtain ⟨hs', hpc', hLED'⟩ := tick_plain hram hcode hs (n := 2) rfl rfl
        (by rw [Instr.encode, opcode_word]; decide) hpc
      refine ⟨?_, _, hs', (Regs.write_val (by decide)).trans ha1, ?_⟩
      · rw [hLED', hLED, count_stays hk (by omega)]
      · rw [show (k + 1) % 1022 = 4 * q + 2 by omega]
        refine .nop hq hpc' ((Regs.write_val (by decide)).trans ((if_pos rfl).trans ?_))
        change h.regs.val a0 + (1#12).signExtend 64 = _
        rw [ha0, BitVec.ofNat_add]
        rfl
  | @nop _ q hq hpc ha0 =>
      obtain ⟨hs', hpc', hLED'⟩ := tick_plain hram hcode hs (n := 3) rfl rfl
        (by rw [Instr.encode, opcode_word]; decide) hpc
      refine ⟨?_, _, hs', (Regs.write_val (by decide)).trans ha1, ?_⟩
      · rw [hLED', hLED, count_stays hk (by omega)]
      · rw [show (k + 1) % 1022 = 4 * q + 3 by omega]
        refine .store hq hpc' ((Regs.write_val (by decide)).trans ((if_pos rfl).trans ?_))
        change h.regs.val a0 + (0#12).signExtend 64 = _
        rw [ha0]
        exact BitVec.add_zero _
  | @store _ q hq hpc ha0 =>
      have hfetch := fetch_code C.rom hcode (k := 4) rfl hpc
      have hs' := step_advance hram hs hfetch (not_deviates_plain hs rfl)
      rw [Hart.advance_sdZero (by unfold Fits; decide)] at hs'
      refine ⟨?_, _, hs', ha1, ?_⟩
      · rw [tick_LED_store hs.regs_zero (hs.fetch.trans hfetch), hs.regs, ha0, count_store hk]
        refine BitVec.eq_of_toNat_eq ?_
        simp only [byte, BitVec.extractLsb'_toNat, BitVec.toNat_ofNat]
        omega
      · rw [show (k + 1) % 1022 = 4 * q + 4 by omega]
        refine .branch hq ?_ ha0
        change h.pc.next = _
        rw [hpc, CodeAddr.next_plus]
  | @branch _ q hq hpc ha0 =>
      obtain ⟨hs', hLED'⟩ := tick_branch (m := 2) hram hcode hs rfl (n := 5) rfl (by decide) hpc
        (by decide)
      refine ⟨?_, _, hs', ha1, ?_⟩
      · rw [hLED', hLED, count_stays hk (by omega)]
      · have htaken : BranchOp.bne.taken (h.regs.val a0) (h.regs.val a1) = decide (q < 254) := by
          rw [ha0, ha1]
          exact taken_iff hq
        rw [htaken]
        by_cases hlast : q < 254
        · rw [show (k + 1) % 1022 = 4 * (q + 1) + 1 by omega]
          exact .loop (by omega) (if_pos (decide_eq_true hlast)) ha0
        · rw [show (k + 1) % 1022 = 1021 by omega]
          exact .again (if_neg (by rw [decide_eq_false hlast]; exact Bool.false_ne_true))
  | again hpc =>
      obtain ⟨hs', hLED'⟩ := tick_branch (m := 1) hram hcode hs rfl (n := 6) rfl (by decide) hpc
        (by decide)
      refine ⟨?_, _, hs', ha1, ?_⟩
      · rw [hLED', hLED, count_stays hk (by decide)]
      · rw [show (k + 1) % 1022 = 0 by omega]
        exact .start (if_pos (beq_self_eq_true (h.regs.val 0)))

/--
**The LEDs count**, cycle by cycle and for good: from 1 to 255, each value for four cycles and
the last one for the two branches and the start of the next round as well.
-/
theorem led_counts (hram : C.Altsyncram) (hcode : Code C.rom origin code)
    (hs : Shows C t.core h) (hpc : h.pc = origin) (n : ℕ) :
    ((tick C)^[n + 1] t).LED = count t.LED n := by
  obtain ⟨hs', hpc', hLED⟩ := tick_plain hram hcode hs (n := 0) rfl rfl
    (by rw [li, Instr.encode, opcode_word]; decide) (hpc.trans (CodeAddr.plus_zero _).symm)
  have hsetup : Counting C t.LED 0 (tick C t) := by
    refine ⟨hLED, _, hs', ?_, .start hpc'⟩
    rw [Hart.advance_li]
    exact (Regs.write_val (by decide)).trans (if_pos rfl)
  rw [Function.iterate_succ_apply]
  exact (leads_indexed (counting_tick hram hcode) n _ hsetup).1

theorem led_counts_released :
    ((tick (Chip.ofProgram (code.map Instr.encode)))^[1023] Board.released).LED = 255 :=
  led_counts (h := Core.resetHart (fun _ => 0) 0) (Chip.ofProgram_altsyncram _)
    (Core.code_ofProgram (by decide)) (Core.shows_released _ (fun _ => 0) 0) rfl 1022

end LedCounter

end PassiFlo
