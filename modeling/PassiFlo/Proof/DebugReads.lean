import PassiFlo.Proof.Injection
import PassiFlo.Proof.Latch

/-!
# Debug reads

A debug read stalls the core, and a stalled core keeps everything the program can
name. What a data memory read does move is the latch of the RAM, and the program finds
out if its next load is one that still needed the old latch. CSR, register and PC
reads leave no trace at all.
-/

namespace PassiFlo

open Clocked

namespace Core

variable {C : Chip} {i : Inputs} {s t : State}

/-- A stalled cycle that only reads. -/
structure DebugRead (i : Inputs) : Prop where
  reset : i.reset = false
  stopAt : i.stopAt = false
  memWe : i.memWe = false
  weDB : i.weDB = false
  reads : i.csrDB = true ∨ i.memRe = true
  addr : i.addr.getLsbD 12 = false

/-- What the program can see: everything but the RAM latch and the stop count. -/
def visible (s : State) : State := program (variant s s.regs 0)

/-- A run after the reads shows what it shows without them. -/
def Transparent (C : Chip) (s : State) (reads is : List Inputs) : Prop :=
  ∀ p, p <+: is → visible (run C p (run C reads s)) = visible (run C p s)

/-! ## The reads -/

/-- The RAM output after some reads: the word of the last memory read. -/
def shownAfter (s : State) (reads : List Inputs) : BitVec 64 :=
  reads.foldl (fun x i => if i.memRe then s.ram.words (i.addr.extractLsb' 3 12) else x) s.ram.latch

/-- One read moves the latch at most. -/
theorem cycle_debugRead (hram : C.Altsyncram) (h : DebugRead i) :
    program (cycle C i s) = program (variant s s.regs (shownAfter s [i])) := by
  have hst : coprocessorStall i s = true := by
    rw [coprocessorStall]
    rcases h.reads with hc | hm
    · rw [hc]; simp
    · rw [hm]; simp
  obtain ⟨hrden, hwren⟩ := dmemPort_stalled (C := C) hst
  have hram' : C.ramClock s.ram (dmemPort C i s) = ⟨s.ram.words, shownAfter s [i]⟩ := by
    have hwords := hram.words_of_not_wren (r := s.ram) (hwren.trans h.memWe)
    refine Ram.ext hwords ?_
    rw [shownAfter, List.foldl_cons, List.foldl_nil]
    split_ifs with hm
    · have haddr : (dmemPort C i s).address = i.addr.extractLsb' 3 12 := by
        simp only [dmemPort, hm, Bool.true_or, if_true]
      rw [hram.reads _ _ (hrden.trans hm), hwords, haddr]
    · exact hram.holds _ _ (hrden.trans (Bool.eq_false_iff.mpr hm))
  rw [cycle_eq_posedge h.reset, posedge_stalled h.reset hst, hram', h.weDB, h.addr]
  simp only [Bool.and_false, Bool.false_and]
  rfl

/-- A run of reads moves the latch at most. -/
theorem run_debugReads (hram : C.Altsyncram) (reads : List Inputs)
    (h : ∀ i ∈ reads, DebugRead i) :
    program (run C reads s) = program (variant s s.regs (shownAfter s reads)) := by
  induction reads generalizing s with
  | nil => rfl
  | cons i is ih =>
      have hi : program (cycle C i s) = _ := cycle_debugRead hram (h i (List.mem_cons_self ..))
      have hrest := ih (s := cycle C i s) fun j hj => h j (List.mem_cons_of_mem i hj)
      -- both sides only look at what `program` keeps
      have hshown : shownAfter (cycle C i s) is = shownAfter (program (cycle C i s)) is := rfl
      have hvar : ∀ y, program (variant (cycle C i s) (cycle C i s).regs y) =
          variant (program (cycle C i s)) (program (cycle C i s)).regs y := fun _ => rfl
      rw [hshown, hvar, hi] at hrest
      exact hrest

/-! ## The run that follows -/

/-- All coprocessor controls at zero. -/
def Quiet (i : Inputs) : Prop := i.control = 0

/-- Without a stop the count is irrelevant. -/
theorem cycle_program (h : Quiet i) (hst : program s = program t) : cycle C i s = cycle C i t := by
  have hstop : i.stopAt = false := by rw [Inputs.stopAt, h]; exact BitVec.getLsbD_zero
  have hsettle : ∀ u, settle i u = settle i (program u) := fun u => by
    simp only [settle, program, hstop, Bool.false_eq_true, if_false]
  rw [cycle, cycle, hsettle s, hsettle t, hst]

/--
The first load of the run, if there is one, cannot tell the RAM output `x` from the
one it would have found: it writes no register, or extracts the same value from both.
-/
def LatchUnseen (C : Chip) (x : BitVec 64) : List Inputs → State → Prop
  | [], _ => True
  | i :: is, s =>
      if opcode (instrMemText C (settle i s)) = 0b0000011#7 then
        rd (instrMemText C (settle i s)) = 0 ∨
          loadMask C (settle i s) x = loadMask C (settle i s) s.ram.latch
      else LatchUnseen C x is (cycle C i s)

theorem regfileNext_inj (wa : BitVec 5) (v w : BitVec 64) (regs : BitVec 5 → BitVec 64) :
    regfileNext true wa v regs = regfileNext true wa w regs ↔ wa = 0 ∨ v = w := by
  unfold regfileNext
  by_cases h : wa = 0
  · subst h; simp
  · have hwe : (true && wa != 0) = true := by simpa using h
    rw [if_pos hwe, if_pos hwe, (Function.update_injective regs wa).eq_iff, or_iff_right h]

/-- **What the latch gives away.** -/
theorem variant_visible_iff (hram : C.Altsyncram) (is : List Inputs) (h : ∀ i ∈ is, Quiet i)
    (x : BitVec 64) :
    (∀ p, p <+: is → visible (run C p (variant s s.regs x)) = visible (run C p s)) ↔
      LatchUnseen C x is s := by
  induction is generalizing s with
  | nil =>
      refine iff_of_true (fun p hp => ?_) trivial
      rw [List.prefix_nil.mp hp]
      rfl
  | cons i is ih =>
      have hst : coprocessorStall i (settle i s) = false :=
        stall_of_control (h i (List.mem_cons_self ..))
      have hrest : ∀ j ∈ is, Quiet j := fun j hj => h j (List.mem_cons_of_mem i hj)
      have hnow : visible (run C [] (variant s s.regs x)) = visible (run C [] s) := rfl
      rw [forall_prefix_cons, LatchUnseen, and_iff_right hnow]
      split_ifs with hop
      · -- the first load: from here on the cores are equal, or `rd` tells them apart
        have hcyc : cycle C i (variant s s.regs x) = { cycle C i s with
            regs := regfileNext true (rd (instrMemText C (settle i s)))
              (loadMask C (settle i s) x) s.regs } :=
          posedge_load_variant (s := settle i s) hram hst hop x
        have hregs : (cycle C i s).regs = regfileNext true (rd (instrMemText C (settle i s)))
            (loadMask C (settle i s) s.ram.latch) s.regs := by
          rw [cycle, posedge_load_regs hst hop, loadValue_eq hram]
          rfl
        rw [← regfileNext_inj, ← hregs]
        constructor
        · intro hvis
          have h0 := congrArg State.regs (hvis [] (List.nil_prefix ..))
          exact (congrArg State.regs hcyc).symm.trans h0
        · intro heq p _
          have hsame : cycle C i (variant s s.regs x) = cycle C i s := by rw [hcyc, heq]
          exact congrArg (fun u => visible (run C p u)) hsame
      · obtain ⟨y, hy⟩ := posedge_not_load (q := C.ramQ) (t := variant (settle i s) s.regs x) hram
          hst hop ⟨x, rfl⟩
        have hcyc : cycle C i (variant s s.regs x) =
            variant (cycle C i s) (cycle C i s).regs y := hy
        -- and the latch is still the one we started with
        have hheld : (cycle C i (variant s s.regs x)).ram.latch = x :=
          latch_not_load (s := variant (settle i s) s.regs x) hram hst hop
        rw [hcyc] at hheld
        obtain rfl : y = x := hheld
        rw [← ih hrest]
        exact forall_congr' fun p => forall_congr' fun _ =>
          Eq.congr (congrArg (fun u => visible (run C p u)) hcyc) rfl

/--
**Debug reads are transparent** exactly when the first load after them cannot see
what they left in the latch.
-/
theorem transparent_iff (hram : C.Altsyncram) (reads is : List Inputs)
    (hreads : ∀ i ∈ reads, DebugRead i) (his : ∀ i ∈ is, Quiet i) :
    Transparent C s reads is ↔ LatchUnseen C (shownAfter s reads) is s := by
  rw [← variant_visible_iff hram is his]
  refine forall_congr' fun p => forall_congr' fun hp => ?_
  have hprog : program (run C reads s) = _ := run_debugReads hram reads hreads
  have hsame : visible (run C p (run C reads s)) =
      visible (run C p (variant s s.regs (shownAfter s reads))) := by
    cases p with
    | nil => exact congrArg (fun u => variant u u.regs 0) hprog
    | cons j p =>
        have hj : Quiet j := his j (hp.subset (List.mem_cons_self ..))
        exact congrArg (fun u => visible (run C p u)) (cycle_program hj hprog)
  rw [hsame]

/-- `ld x1, 8(x0)` twice. -/
def loadTwice : Chip := Chip.ofProgram [0x00803083#32, 0x00803083#32]

/-- Memory with a 5 in word 1, and the first copy executed. -/
def betweenCopies : State :=
  cycle loadTwice Inputs.idle (State.released (fun a => if a = 1 then 5 else 0) 0)

/-- Reading word 0 between the two copies makes the second load the wrong word. -/
theorem debugRead_seen :
    ¬ ∀ (C : Chip) (s : State) (reads is : List Inputs), C.Altsyncram → Reachable C s →
      (∀ i ∈ reads, DebugRead i) → (∀ i ∈ is, Quiet i) → Transparent C s reads is := by
  intro h
  have hread : DebugRead { Inputs.idle with control := 0b00100#5 } :=
    ⟨rfl, by decide, by decide, by decide, by decide, by decide⟩
  have hvis := h loadTwice betweenCopies [{ Inputs.idle with control := 0b00100#5 }] [Inputs.idle]
    (Chip.ofProgram_altsyncram _) ((reachable_released _ _ _).cycle _)
    (fun i hi => List.mem_singleton.mp hi ▸ hread)
    (fun i hi => by rw [List.mem_singleton.mp hi]; rfl)
    [Inputs.idle] (List.prefix_refl _)
  have h1 := congrFun (congrArg State.regs hvis) 1
  revert h1
  decide +kernel

/-- Reading a CSR there is not seen. -/
theorem transparent_csr :
    Transparent loadTwice betweenCopies [{ Inputs.idle with control := 0b01000#5, addr := 0x300 }]
      [Inputs.idle] := by
  have hread : DebugRead { Inputs.idle with control := 0b01000#5, addr := 0x300 } :=
    ⟨rfl, by decide, by decide, by decide, by decide, by decide⟩
  refine (transparent_iff (C := loadTwice) (Chip.ofProgram_altsyncram _) _ _
    (fun i hi => List.mem_singleton.mp hi ▸ hread)
    (fun i hi => by rw [List.mem_singleton.mp hi]; rfl)).mpr
    ?_
  rw [LatchUnseen, if_pos (by decide +kernel)]
  exact .inr (by decide +kernel)

end Core

end PassiFlo
