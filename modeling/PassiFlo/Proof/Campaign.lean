import PassiFlo.Soft.Campaign
import PassiFlo.Proof.Injector
import PassiFlo.Proof.RegisterGroups

/-!
# The campaign, from the chip to the plots

The script knows a run only by the line that the injector prints. It takes the duration of
the clean run from that line and bounds all others by it; it saves the lines; and the
plots are made from the file. What a plot shows of a register is a hundred experiments on
the program, each of them a number of steps, a flip of the register, and more steps. The
program begins with the `nop` of `entry.s`, which the core executes over and over while the
host holds it in reset; any other instruction there would make the state that the program
starts from depend on how long that takes.
-/

namespace PassiFlo

namespace Soft

open PassiFlo.Core Text Loop Loop.Outcome

/-! ## The duration -/

/-- The first field of the dump, with all that is before its comma. -/
theorem split_line (run : Run) (k : Fin 4096) (rest : List Char) :
    split [','] ([','].intercalate run.fields ++ ("||memdump||".toList
        ++ (run.wordLine k ++ ',' :: rest)))
      = run.fields.dropLast ++ (named "duration".toList ('0' :: 'x' :: printHex run.watchdog)
        ++ ("||memdump||".toList ++ run.wordLine k)) :: split [','] rest := by
  let e : Experiment := { run := run, injection := { reg := 0, flippedBit := 0, delay := 0 } }
  have hfields : ∀ field ∈ run.fields, ',' ∉ field := fun field hfield =>
    Experiment.not_mem_of_reads e.reads_firstFields (by simp) field (List.mem_append_left _ hfield)
  have hlast := hfields (named "duration".toList ('0' :: 'x' :: printHex run.watchdog))
    (by simp [Run.fields])
  have hword := wordLine_not_mem run k (c := ',') (by simp)
  have hmark : ',' ∉ "||memdump||".toList := by decide
  have hcut : [','].intercalate run.fields ++ ("||memdump||".toList
      ++ (run.wordLine k ++ ',' :: rest)) = [','].intercalate (run.fields.dropLast
        ++ [(named "duration".toList ('0' :: 'x' :: printHex run.watchdog)
          ++ ("||memdump||".toList ++ run.wordLine k)) ++ ',' :: rest]) := by
    have hsplit : run.fields = run.fields.dropLast
        ++ [named "duration".toList ('0' :: 'x' :: printHex run.watchdog)] := rfl
    rw [hsplit, intercalate_append]
    simp only [List.append_assoc, List.dropLast_concat]
  have hclean : ',' ∉ named "duration".toList ('0' :: 'x' :: printHex run.watchdog)
      ++ ("||memdump||".toList ++ run.wordLine k) := by
    simp only [List.mem_append, not_or]
    exact ⟨hlast, hmark, hword⟩
  rw [hcut, split_intercalate_append (List.cons_ne_nil _ _), split_cons_append hclean]
  intro field hfield
  exact clean_of_not_mem (hfields field (List.mem_of_mem_dropLast hfield))

/-- **The duration** is read as it was printed, though the dump is on the same line. -/
theorem durationOf_report {run : Run} {line : List Char} (h : run.report = some line) :
    durationOf line = some (run.watchdog.toNat : ℤ) := by
  have hne : List.finRange 4096 ≠ [] := by simp
  obtain ⟨k, ks, hks⟩ := List.exists_cons_of_ne_nil hne
  obtain ⟨high, low, hword, hhigh, hlow, -⟩ := wordLine_eq run k
  have hline : line = [','].intercalate run.fields ++ ("||memdump||".toList
      ++ (run.wordLine k ++ ',' :: ((ks.map run.wordLine).flatMap (· ++ [',']) ++ ['\n']))) := by
    rw [report_eq, hks, Option.some.injEq] at h
    rw [← h]
    simp
  have hdigits := digits_printHex run.watchdog
  have hvalue := plain_prefixed (plain_of_digits hdigits le_rfl)
  have hindex := plain_index k
  have hfield : (split [','] line)[5]? = some ("duration".toList ++ ':' ::
      (('0' :: 'x' :: printHex run.watchdog ++ ("||memdump||".toList
        ++ ('0' :: 'x' :: Nat.toDigits 16 k)))
        ++ ':' :: ('0' :: 'x' :: high ++ '_' :: '0' :: 'x' :: low))) := by
    rw [hline, split_line, hword]
    simp [Run.fields, named]
  have hcolon : ':' ∉ '0' :: 'x' :: printHex run.watchdog ++ ("||memdump||".toList
      ++ ('0' :: 'x' :: Nat.toDigits 16 k)) := by
    rw [List.mem_append, List.mem_append, not_or, not_or]
    exact ⟨not_mem_of_plain hvalue (by simp), by decide, not_mem_of_plain hindex (by simp)⟩
  have hbar : (split "||".toList ('0' :: 'x' :: printHex run.watchdog ++ ("||memdump||".toList
      ++ ('0' :: 'x' :: Nat.toDigits 16 k))))[0]? = some ('0' :: 'x' :: printHex run.watchdog) := by
    have hcut : "||memdump||".toList ++ ('0' :: 'x' :: Nat.toDigits 16 k)
        = "||".toList ++ ("memdump||".toList ++ ('0' :: 'x' :: Nat.toDigits 16 k)) := rfl
    have hsep : "||".toList = ['|', '|'] := by decide
    have hclean : Clean ['|', '|'] ('0' :: 'x' :: printHex run.watchdog) :=
      clean_of_not_mem (not_mem_of_plain hvalue (by simp))
    rw [hcut, hsep, split_append (List.cons_ne_nil _ _) hclean]
    rfl
  unfold durationOf
  rw [hfield]
  simp only [Option.bind_eq_bind, Option.bind_some,
    split_cons_append (by decide : ':' ∉ "duration".toList), split_cons_append hcolon]
  simp only [List.getElem?_cons_succ, List.getElem?_cons_zero, Option.bind_some, hbar]
  exact int_prefixed hdigits (readDigits_printHex _)

/-! ## A run -/

section Runs

variable {image : BitVec 12 → BitVec 64} {C : Chip} {fuel register : ℕ} {maxDuration : Option ℕ}

/-- The program when the delay has run out. -/
def delayedBy (C : Chip) (image : BitVec 12 → BitVec 64) (latch : BitVec 64) (delay : ℕ) : State :=
  (step C)^[(BitVec.ofNat 32 delay).toNat] (State.released image latch)

/-- The values of a run: of the program before and after a fault, and `n` steps later. -/
structure Observed (C : Chip) (e : Experiment) (before after : State) (n : ℕ) : Prop where
  injectedPc : e.run.injectedPc = before.pc
  currentVal : e.run.currentVal = before.regs (BitVec.ofNat 5 e.injection.reg)
  newVal : e.run.newVal = after.regs (BitVec.ofNat 5 e.injection.reg)
  pc : e.run.pc = ((step C)^[n] after).pc
  memory : ∀ k, e.run.memory k = ((step C)^[n] after).ram.words (BitVec.ofNat 12 k.val)
  /-- A result is one of a program that has finished, in no fewer steps than reported. -/
  result : e.run.watchdog ≤ e.run.programMaxDuration →
    Finished ((step C)^[n] after) ∧ e.run.result = ((step C)^[n] after).regs 10
  watchdog : e.run.watchdog.toNat ≤ n
  running : ∀ j < e.run.watchdog.toNat, ¬ Finished ((step C)^[j] after)

/-- The register of an experiment, with the bits of the mask flipped. -/
def faulted (C : Chip) (e : Experiment) (mask : BitVec 64) (s : State) : State :=
  (Op.flip (BitVec.ofNat 5 e.injection.reg) mask).apply C s

/-- What `run_test` conducts for a register: one bit, or none where it is flipped twice. -/
structure Conducted (C : Chip) (maxDuration : Option ℕ) (register : ℕ) (x : Trial image)
    (e : Experiment) : Prop where
  reg : e.injection.reg = register
  flippedBit : e.injection.flippedBit ≤ 63
  delay : 12 ≤ e.injection.delay ∧ e.injection.delay ≤ maxDuration.getD 12
  bound : e.run.programMaxDuration =
    BitVec.ofNat 32 (min (maxDuration.getD 0xffffffff) 0xffffffff)
  observed : ∃ mask n, (mask = 0 ∨ mask = 1#64 <<< e.injection.flippedBit) ∧
    Observed C e (delayedBy C image x.machine.core.ram.latch e.injection.delay)
      (faulted C e mask (delayedBy C image x.machine.core.ram.latch e.injection.delay)) n

/-- Nothing happens to `x0`. -/
theorem flip_register_zero (mask : BitVec 64) (s : State) :
    (Op.flip (BitVec.ofNat 5 0) mask).apply C s = s := by
  rw [apply_flip]
  exact if_pos rfl

theorem randint_eq_some {a b source r : ℕ} (h : randint a b source = some r) : a ≤ r ∧ r ≤ b := by
  unfold randint at h
  split at h
  · rename_i hle
    have hmod := Nat.mod_lt source (by omega : 0 < b - a + 1)
    obtain rfl := Option.some.inj h
    omega
  · exact absurd h (by simp)

theorem Trial.held (x : Trial image) :
    heldInReset x.machine.core 0 = State.released image x.machine.core.ram.latch := by
  have hregs : x.machine.core.regs = fun _ => 0 := x.powerUp
  rw [heldInReset, hregs, x.loaded]
  rfl

/-- A mask of which only one half has bits arrives as a whole or not at all. -/
theorem arriving_halves {high low : BitVec 32} (hhalf : high = 0 ∨ low = 0)
    (highEdges lowEdges : ℕ) :
    Injector.arriving highEdges high ++ Injector.arriving lowEdges low = 0#64 ∨
      Injector.arriving highEdges high ++ Injector.arriving lowEdges low = high ++ low := by
  rcases hhalf with rfl | rfl
  · rw [Injector.arriving_zero, Injector.arriving]
    split_ifs
    · exact Or.inr rfl
    · exact Or.inl rfl
  · rw [Injector.arriving_zero, Injector.arriving]
    split_ifs
    · exact Or.inr rfl
    · exact Or.inl rfl

/-- A bit of a word is a bit of one of its halves. -/
theorem arriving_bit {bit : ℕ} (hbit : bit ≤ 63) (highEdges lowEdges : ℕ) :
    Injector.arriving highEdges (BitVec.ofNat 32 ((1 <<< bit) >>> 32)) ++
        Injector.arriving lowEdges (BitVec.ofNat 32 ((1 <<< bit) &&& 0xffffffff)) = 0#64 ∨
      Injector.arriving highEdges (BitVec.ofNat 32 ((1 <<< bit) >>> 32)) ++
        Injector.arriving lowEdges (BitVec.ofNat 32 ((1 <<< bit) &&& 0xffffffff))
          = 1#64 <<< bit := by
  have hhalves : ∀ b : Fin 64,
      (BitVec.ofNat 32 ((1 <<< b.val) >>> 32) = 0#32 ∨
        BitVec.ofNat 32 ((1 <<< b.val) &&& 0xffffffff) = 0#32) ∧
      BitVec.ofNat 32 ((1 <<< b.val) >>> 32) ++ BitVec.ofNat 32 ((1 <<< b.val) &&& 0xffffffff)
        = 1#64 <<< b.val := by
    decide +kernel
  obtain ⟨hzero, hboth⟩ := hhalves ⟨bit, by omega⟩
  rw [← hboth]
  exact arriving_halves hzero highEdges lowEdges

/-- The registers that the script injects are those of the core. -/
theorem target_register {m : Injector.Macros} (hreg : register ≤ 31)
    (hm : m.injectAddress = BitVec.ofNat 32 register) :
    (Injector.target m).getLsbD 5 = false ∧
      (Injector.target m).extractLsb' 0 5 = BitVec.ofNat 5 register := by
  have hall : ∀ r : Fin 32,
      ((BitVec.ofNat 32 r.val).setWidth 15).getLsbD 5 = false ∧
        ((BitVec.ofNat 32 r.val).setWidth 15).extractLsb' 0 5 = BitVec.ofNat 5 r.val := by
    decide
  rw [Injector.target, hm]
  exact hall ⟨register, by omega⟩

theorem shown_register {m : Injector.Macros} (hreg : register ≤ 31)
    (hm : m.injectAddress = BitVec.ofNat 32 register) (s : State) :
    Injector.shown (Injector.target m) s = s.regs (BitVec.ofNat 5 register) := by
  obtain ⟨hbit, hlow⟩ := target_register hreg hm
  rw [Injector.shown, hbit, if_neg Bool.false_ne_true, hlow]

/-- The macros that the script writes for a run. -/
def macrosOf (maxDuration : Option ℕ) (injection : Injection) : Injector.Macros :=
  generateFaultInjector injection.reg (1 <<< injection.flippedBit) injection.delay
    (maxDuration.getD 0xffffffff)

/-- A run of the injector, and what the script makes of it. -/
theorem runTest_eq_done_iff {x : Trial image} {r : ℕ × List Char} :
    runTest C fuel register maxDuration x = done r ↔
      ∃ flippedBit delay run, randint 0 63 x.bitSource = some flippedBit ∧
        randint 12 (maxDuration.getD 12) x.delaySource = some delay ∧
        Injector.main C x.wait (macrosOf maxDuration ⟨register, flippedBit, delay⟩) fuel x.host
          = done run ∧
        r = (run.watchdog.toNat,
          Experiment.paragraph ⟨run, ⟨register, flippedBit, delay⟩⟩ ++ "\n\n".toList) := by
  have hrest : ∀ (run : Run) (injection : Injection), (do
      let line ← run.report
      let duration ← durationOf line
      let text ← fileWriteLine line injection
      done (duration.toNat, text) : Outcome (ℕ × List Char))
        = done (run.watchdog.toNat, Experiment.paragraph ⟨run, injection⟩ ++ "\n\n".toList) := by
    intro run injection
    have hlogged := Experiment.logged_eq ⟨run, injection⟩
    obtain ⟨line, hline, htext⟩ := Option.bind_eq_some_iff.mp hlogged
    simp only [hline, durationOf_report hline, htext, lift_some, done_bind, Int.toNat_natCast]
  unfold runTest
  constructor
  · intro h
    obtain ⟨flippedBit, hbit, h⟩ := bind_eq_done_iff.mp h
    obtain ⟨delay, hdelay, h⟩ := bind_eq_done_iff.mp h
    obtain ⟨run, hrun, h⟩ := bind_eq_done_iff.mp h
    refine ⟨flippedBit, delay, run, ofOption_eq_done_iff.mp hbit, ofOption_eq_done_iff.mp hdelay,
      hrun, ?_⟩
    exact (Outcome.done.inj ((hrest run _).symm.trans h)).symm
  · intro h
    obtain ⟨flippedBit, delay, run, hbit, hdelay, hrun, rfl⟩ := h
    have hmain : Injector.main C x.wait (generateFaultInjector register (1 <<< flippedBit) delay
        (maxDuration.getD 0xffffffff)) fuel x.host = done run := hrun
    simp only [hbit, hdelay, hmain, lift_some, done_bind]
    exact hrest run ⟨register, flippedBit, delay⟩

/-- **What the injector reports** of a run of the script. -/
theorem conducted (hram : C.Altsyncram) (hnop : C.rom 0 = 0x00000013#32) {e : Experiment}
    {x : Trial image} (hreg : e.injection.reg ≤ 31)
    (hbit : randint 0 63 x.bitSource = some e.injection.flippedBit)
    (hdelay : randint 12 (maxDuration.getD 12) x.delaySource = some e.injection.delay)
    (hrun : Injector.main C x.wait (macrosOf maxDuration e.injection) fuel x.host = done e.run) :
    Conducted C maxDuration e.injection.reg x e := by
  obtain ⟨q, hq⟩ := Injector.exists_stalls hram hnop x.wait (macrosOf maxDuration e.injection)
    x.host rfl
  obtain ⟨n, hn⟩ := hq.reports hram hrun
  have hflipped := (randint_eq_some hbit).2
  have hbefore : Injector.delayed C (macrosOf maxDuration e.injection) x.host.machine.core
      = delayedBy C image x.machine.core.ram.latch e.injection.delay := by
    rw [Injector.delayed, delayedBy, ← x.held]
    rfl
  have hmask := arriving_bit hflipped (x.wait (q.2.accesses + 8 + 2) + 1)
    (x.wait (q.2.accesses + 8) + 1)
  have hshown := shown_register (m := macrosOf maxDuration e.injection) hreg rfl
  have htarget := target_register (m := macrosOf maxDuration e.injection) hreg rfl
  rw [hbefore, Injector.flipped, htarget.2] at hn
  refine ⟨rfl, hflipped, randint_eq_some hdelay, hn.programMaxDuration, _, n, hmask, ?_⟩
  exact ⟨hn.injectedPc, hn.currentVal.trans (hshown _), hn.newVal.trans (hshown _), hn.pc,
    hn.memory, hn.programMaxDuration ▸ hn.result, hn.watchdog, hn.running⟩

/-! ## The plan -/

/-- The clean run meets no fault, and it ends only when the program does. -/
theorem Conducted.clean {x : Trial image} {e : Experiment} (h : Conducted C none 0 x e) :
    ∃ n, Observed C e (delayedBy C image x.machine.core.ram.latch 12)
        (delayedBy C image x.machine.core.ram.latch 12) n ∧
      Finished ((step C)^[n] (delayedBy C image x.machine.core.ram.latch 12)) := by
  obtain ⟨mask, n, -, hn⟩ := h.observed
  have hdelay : e.injection.delay = 12 := Nat.le_antisymm h.delay.2 h.delay.1
  have hnone : ∀ s, faulted C e mask s = s := by
    intro s
    rw [faulted, h.reg, flip_register_zero]
  have hbound : e.run.watchdog ≤ e.run.programMaxDuration := by
    rw [h.bound]
    exact BitVec.le_def.mpr (Nat.le_of_lt_succ e.run.watchdog.isLt)
  rw [hnone, hdelay] at hn
  exact ⟨n, hn, (hn.result hbound).1⟩

theorem exists_randint {a b : ℕ} (hle : a ≤ b) (source : ℕ) : ∃ r, randint a b source = some r :=
  ⟨_, if_pos hle⟩

/-- A bounded run ends, and so does the clean run of a program that finishes. -/
theorem runTest_ends (hram : C.Altsyncram) (hnop : C.rom 0 = 0x00000013#32) (x : Trial image)
    (hdelay : 12 ≤ maxDuration.getD 12)
    (hends : maxDuration.getD 0xffffffff < 0xffffffff ∨ register = 0 ∧
      ∃ j, Finished ((step C)^[j] (State.released image x.machine.core.ram.latch))) :
    ∃ r, ∀ᶠ fuel in Filter.atTop, runTest C fuel register maxDuration x = done r := by
  obtain ⟨flippedBit, hbit⟩ := exists_randint (Nat.zero_le 63) x.bitSource
  obtain ⟨delay, hdelay⟩ := exists_randint hdelay x.delaySource
  obtain ⟨q, hq⟩ := Injector.exists_stalls hram hnop x.wait
    (macrosOf maxDuration ⟨register, flippedBit, delay⟩) x.host rfl
  have hfinal : (macrosOf maxDuration ⟨register, flippedBit, delay⟩).programMaxDuration
        ≠ BitVec.allOnes 32 ∨ ∃ j, Finished ((step C)^[j] ((Injector.flipped
          (macrosOf maxDuration ⟨register, flippedBit, delay⟩) (x.wait (q.2.accesses + 8 + 2) + 1)
          (x.wait (q.2.accesses + 8) + 1)).apply C (Injector.delayed C
            (macrosOf maxDuration ⟨register, flippedBit, delay⟩) x.host.machine.core))) := by
    rcases hends with hbound | ⟨rfl, j, hj⟩
    · left
      intro hmax
      have hmax := congrArg BitVec.toNat hmax
      change (min (maxDuration.getD 0xffffffff) 0xffffffff) % 2 ^ 32 = 2 ^ 32 - 1 at hmax
      omega
    · right
      have hheld : heldInReset x.host.machine.core 0 = _ := x.held
      refine ⟨j, ?_⟩
      rw [Injector.flipped, (target_register (Nat.zero_le 31) rfl).2, flip_register_zero,
        Injector.delayed, ← Function.iterate_add_apply, hheld]
      exact finished_mono (Nat.le_add_right j _) hj
  obtain ⟨fuel, run, hrun⟩ := (hq.total_iff hram).mpr hfinal
  refine ⟨(run.watchdog.toNat,
    Experiment.paragraph ⟨run, ⟨register, flippedBit, delay⟩⟩ ++ "\n\n".toList), ?_⟩
  refine Filter.eventually_atTop.mpr ⟨fuel, fun fuel' hle => ?_⟩
  exact runTest_eq_done_iff.mpr
    ⟨flippedBit, delay, run, hbit, hdelay, Injector.main_mono hle hrun, rfl⟩

/-- The runs of a plan end, if the delays can be drawn. -/
theorem runTests_end (hram : C.Altsyncram) (hnop : C.rom 0 = 0x00000013#32) {duration : ℕ}
    (hle : 12 ≤ duration) (hlt : duration < 0xffffffff) (plan : List (ℕ × Trial image)) :
    ∃ text, ∀ᶠ fuel in Filter.atTop, runTests C fuel duration plan = done text := by
  induction plan with
  | nil => exact ⟨[], Filter.Eventually.of_forall fun _ => rfl⟩
  | cons r rest ih =>
      obtain ⟨first, hfirst⟩ : ∃ first, ∀ᶠ fuel in Filter.atTop,
          runTest C fuel r.1 (some duration) r.2 = done first :=
        runTest_ends hram hnop r.2 hle (Or.inl hlt)
      obtain ⟨others, hothers⟩ := ih
      refine ⟨first.2 ++ others, ?_⟩
      filter_upwards [hfirst, hothers] with fuel hfirst hothers
      rw [runTests, hfirst, done_bind, hothers, done_bind]

/-- A delay that cannot be drawn ends the script. -/
theorem runTests_fault {duration : ℕ} (hlt : duration < 12) (r : ℕ × Trial image)
    (rest : List (ℕ × Trial image)) : runTests C fuel duration (r :: rest) = fault := by
  have hnone : randint 12 duration r.2.delaySource = none := if_neg (Nat.not_le.mpr hlt)
  obtain ⟨flippedBit, hbit⟩ := exists_randint (Nat.zero_le 63) r.2.bitSource
  have hfirst : runTest C fuel r.1 (some duration) r.2 = fault := by
    unfold runTest
    simp only [Option.getD_some, hbit, hnone, lift_some, lift_none, done_bind, fault_bind]
  rw [runTests, hfirst, fault_bind]

/-- After a clean run of some length, the campaign ends. -/
theorem campaign_of_clean (hram : C.Altsyncram) (hnop : C.rom 0 = 0x00000013#32)
    {clean : Trial image} (trial : ℕ → ℕ → Trial image) {r : ℕ × List Char}
    (hr : ∀ᶠ fuel in Filter.atTop, runTest C fuel 0 none clean = done r) (hlong : 6 ≤ r.1)
    (hshort : r.1 < 2 ^ 31 - 1) :
    ∃ text, ∀ᶠ fuel in Filter.atTop, campaign C fuel clean trial = done text := by
  obtain ⟨others, hothers⟩ : ∃ others, ∀ᶠ fuel in Filter.atTop, runTests C fuel (r.1 * 2)
      (rounds.map fun r => (r.1, trial r.1 r.2)) = done others :=
    runTests_end hram hnop (by omega) (by omega) _
  refine ⟨r.2 ++ others, ?_⟩
  filter_upwards [hr, hothers] with fuel hr hothers
  have hrest := congrArg (fun o => o >>= fun others => done (r.2 ++ others)) hothers
  rw [campaign, hr, done_bind]
  exact hrest

variable {δ : Type}

/-- Forty times `nop`, and `ebreak`. -/
def pause : Chip := Chip.ofProgram (List.replicate 40 0x00000013#32 ++ [0x00100073#32])

/-- A run with a host that loses no time. -/
def prompt : Trial fun _ => 0 where
  bitSource := 0
  delaySource := 0
  wait := fun _ => 0
  machine := { core := State.released (fun _ => 0) 0, led := 0 }
  powerUp := rfl
  loaded := rfl

/--
**The campaign ends**, if the program begins with `nop` and ends in fewer than 2^31 steps:
it writes its file, or, when the program is too short for a delay of 12 to be drawn, it
raises an exception after the clean run.
-/
theorem campaign_ends (hram : C.Altsyncram) (hnop : C.rom 0 = 0x00000013#32)
    (clean : Trial image) (trial : ℕ → ℕ → Trial image) {j : ℕ} (hj : j < 2 ^ 31)
    (hfinish : Finished ((step C)^[j] (State.released image clean.machine.core.ram.latch))) :
    ∃ duration text, duration ≤ j - 12 ∧
      (∀ᶠ fuel in Filter.atTop, runTest C fuel 0 none clean = done (duration, text)) ∧
      (6 ≤ duration → ∃ text,
        ∀ᶠ fuel in Filter.atTop, campaign C fuel clean trial = done text) ∧
      (duration < 6 → ∀ᶠ fuel in Filter.atTop, campaign C fuel clean trial = fault) := by
  obtain ⟨r, hr⟩ : ∃ r, ∀ᶠ fuel in Filter.atTop, runTest C fuel 0 none clean = done r :=
    runTest_ends hram hnop clean le_rfl (Or.inr ⟨rfl, j, hfinish⟩)
  have hduration : r.1 ≤ j - 12 := by
    obtain ⟨fuel, hfuel⟩ := hr.exists
    obtain ⟨flippedBit, delay, run, hbit, hdelay, hrun, rfl⟩ := runTest_eq_done_iff.mp hfuel
    have he := conducted (e := ⟨run, ⟨0, flippedBit, delay⟩⟩) hram hnop (Nat.zero_le 31) hbit hdelay
      hrun
    obtain ⟨n, hn, -⟩ := he.clean
    by_contra hlong
    refine hn.running (j - 12) (Nat.not_le.mp hlong) ?_
    rw [delayedBy, ← Function.iterate_add_apply]
    exact finished_mono (by change j ≤ j - 12 + 12; omega) hfinish
  have hne : rounds ≠ [] := by decide
  refine ⟨r.1, r.2, hduration, hr, ?_, ?_⟩
  · intro hlong
    exact campaign_of_clean hram hnop trial hr hlong (by omega)
  · intro hshort
    obtain ⟨r', rest, hplan⟩ := List.exists_cons_of_ne_nil
      (mt (List.map_eq_nil_iff (f := fun r => (r.1, trial r.1 r.2))).mp hne)
    filter_upwards [hr] with fuel hr
    have hothers :
        runTests C fuel (r.1 * 2) (rounds.map fun r => (r.1, trial r.1 r.2)) = fault := by
      rw [hplan]
      exact runTests_fault (by omega) r' rest
    have hrest := congrArg (fun o => o >>= fun others => done (r.2 ++ others)) hothers
    rw [campaign, hr, done_bind]
    exact hrest

set_option maxRecDepth 100000 in
theorem finished_pause : Finished ((step pause)^[41] (State.released (fun _ => 0) 0)) := by
  unfold Finished
  decide +kernel

theorem campaign_ends_pause : ∃ duration text, duration ≤ 41 - 12 ∧
    (∀ᶠ fuel in Filter.atTop, runTest pause fuel 0 none prompt = done (duration, text)) ∧
    (6 ≤ duration → ∃ text,
      ∀ᶠ fuel in Filter.atTop, campaign pause fuel prompt (fun _ _ => prompt) = done text) ∧
    (duration < 6 →
      ∀ᶠ fuel in Filter.atTop, campaign pause fuel prompt (fun _ _ => prompt) = fault) :=
  campaign_ends (Chip.ofProgram_altsyncram _) rfl prompt (fun _ _ => prompt) (by decide)
    finished_pause

end Runs

end Soft

end PassiFlo
