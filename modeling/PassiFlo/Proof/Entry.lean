import PassiFlo.Lib.Counted
import PassiFlo.Proof.Bare
import PassiFlo.Soft.Entry

/-!
# How a program ends

`entry.s` promises the host two things: a program whose `main` returns stops with the result
in `a0`, and one that raises an exception stops with -1 there and with what the handler
saved in memory. Either way it stops for good, so it does not matter when the host looks.
-/

namespace PassiFlo

open Isa Isa.Reg Lanes Counted

namespace Entry

open PassiFlo.Core (Shows step Finished mie bare bare_advance bare_csrr bare_masked bare_skip
  bare_block fetch_code run_block code_ofProgram)

variable {C : Chip} {s s₀ : State} {h h' : Hart} {ret : CodeAddr} {result : BitVec 64}
  {words : BitVec 12 → BitVec 64}

/-- What the host finds of a program that has ended. -/
structure Ended (result : BitVec 64) (words : BitVec 12 → BitVec 64) (s : State) : Prop where
  finished : Finished s
  result : s.regs a0 = result
  words : s.ram.words = words

/-- A step that leaves the result and the memory alone. -/
theorem Ended.next (he : Ended result words s) (hs : Shows C (bare s) h)
    (hs' : Shows C (bare (step C s)) h') (hregs : h'.regs.val a0 = h.regs.val a0)
    (hmemory : h'.memory = h.memory) : Ended result words (step C s) where
  finished := Core.finished_step he.finished
  result := by
    have hresult := he.result
    rw [← hresult]
    exact (congrFun hs'.regs a0).trans (hregs.trans (congrFun hs.regs a0).symm)
  words := by
    have hwords := ByteMem.ofWords_inj.mp (hs'.memory.trans (hmemory.trans hs.memory.symm))
    exact hwords.trans he.words

/-- An ended program that is somewhere on its way, with exceptions masked. -/
def Stopping (C : Chip) (result : BitVec 64) (words : BitVec 12 → BitVec 64) (way : Hart → Prop)
    (s : State) : Prop :=
  Ended result words s ∧ mie s = false ∧ ∃ h, Shows C (bare s) h ∧ way h

/-- A jump on the way. -/
theorem Ended.jump {way : Hart → Prop} {k l : ℕ} {x : BitVec 21} (he : Ended result words s)
    (hram : C.Altsyncram) (hcode : Code C.rom ret tail) (hm : mie s = false)
    (hs : Shows C (bare s) h) (hk : tail[k]? = some (j x)) (hx : x.getLsbD 0 = false)
    (hoffset : BitVec.ofNat 64 (4 * k) + x.signExtend 64 = BitVec.ofNat 64 (4 * l))
    (hpc : h.pc = ret.plus k) (hway : ∀ h' : Hart, h'.pc = ret.plus l → way h') :
    Stopping C result words way (step C s) := by
  have hfetch := fetch_code C.rom hcode hk hpc
  have hop : opcode (j x).encode ≠ 0b1110011#7 := by
    rw [j, jal, Instr.encode, wordU, opcode_word]
    decide
  obtain ⟨hbare, hunit⟩ := bare_masked hs hm hfetch hop
  have hs' := Core.step_j (a := ret.plus l) hram hs hfetch hx
    (by rw [hpc]; exact ret.plus_offset hoffset)
  rw [← hbare] at hs'
  exact ⟨he.next hs hs' rfl rfl, hunit.mie.trans hm, _, hs', hway _ rfl⟩

/-! ## The return of `main` -/

/-- The way through the handler to `never_ret_done`. -/
inductive ToDone (ret : CodeAddr) (h : Hart) : Prop
  | li : h.pc = ret.plus 5 → h.mcause = 3 → ToDone ret h
  | cause : h.pc = ret.plus 6 → h.mcause = 3 → h.regs.val t2 = 3 → ToDone ret h
  | epc : h.pc = ret.plus 7 → h.regs.val t2 = 3 → h.regs.val t0 = 3 → ToDone ret h
  | compare : h.pc = ret.plus 8 → h.regs.val t2 = 3 → h.regs.val t0 = 3 → ToDone ret h
  | jump : h.pc = ret.plus 9 → ToDone ret h
  | done : h.pc = ret.plus 3 → ToDone ret h

/-- **On the way**, nothing is lost, and it ends in the loop. -/
theorem toDone_step (hram : C.Altsyncram) (hcode : Code C.rom ret tail) :
    Leads (step C) 1 (Stopping C result words (ToDone ret))
      (Stopping C result words (ToDone ret)) := by
  intro s hstop
  obtain ⟨he, hm, h, hs, hway⟩ := hstop
  have hfetch : ∀ {k x}, tail[k]? = some x → h.pc = ret.plus k → h.fetch C.rom = x.encode :=
    fun hk hpc => fetch_code C.rom hcode hk hpc
  cases hway with
  | li hpc hcause =>
      obtain ⟨hs', hunit⟩ := bare_advance hram hs rfl (hfetch (k := 5) (x := li t2 3) rfl hpc)
      rw [Hart.advance_li] at hs'
      refine ⟨he.next hs hs' (Regs.write_val (by decide)) rfl, hunit.mie.trans hm, _, hs',
        .cause ?_ hcause ?_⟩
      · exact (congrArg CodeAddr.next hpc).trans (CodeAddr.next_plus _ _)
      · exact Regs.write_val (by decide)
  | cause hpc hcause ht2 =>
      obtain ⟨hs', hunit⟩ := bare_csrr hram hs (c := .mcause) (by decide) (hfetch rfl hpc)
      refine ⟨he.next hs hs' (Regs.write_val (by decide)) rfl, hunit.mie.trans hm, _, hs',
        .epc ?_ ?_ ?_⟩
      · exact (congrArg CodeAddr.next hpc).trans (CodeAddr.next_plus _ _)
      · exact (Regs.write_val (by decide)).trans ht2
      · exact (Regs.write_val (by decide)).trans (hs.mcause.trans hcause)
  | epc hpc ht2 ht0 =>
      obtain ⟨hs', hunit⟩ := bare_csrr hram hs (c := .mepc) (by decide) (hfetch rfl hpc)
      refine ⟨he.next hs hs' (Regs.write_val (by decide)) rfl, hunit.mie.trans hm, _, hs',
        .compare ?_ ?_ ?_⟩
      · exact (congrArg CodeAddr.next hpc).trans (CodeAddr.next_plus _ _)
      · exact (Regs.write_val (by decide)).trans ht2
      · exact (Regs.write_val (by decide)).trans ht0
  | compare hpc ht2 ht0 =>
      have hword := hfetch rfl hpc
      obtain ⟨hbare, hunit⟩ := bare_masked hs hm hword (by decide)
      have hs' := Core.step_branchBy (a := ret.plus 10) hram hs (by decide) hword (by decide)
        (by rw [hpc]; exact ret.plus_offset (by decide))
      have htaken : BranchOp.bne.taken (h.regs.val t0) (h.regs.val t2) = false := by
        rw [ht2, ht0]
        decide
      rw [htaken, if_neg Bool.false_ne_true, ← hbare] at hs'
      refine ⟨he.next hs hs' rfl rfl, hunit.mie.trans hm, _, hs', .jump ?_⟩
      exact (congrArg CodeAddr.next hpc).trans (CodeAddr.next_plus _ _)
  | jump hpc => exact he.jump hram hcode hm hs rfl rfl (by decide) hpc fun _ => .done
  | done hpc => exact he.jump hram hcode hm hs rfl rfl (by decide) hpc fun _ => .done

/--
`main` has returned, exceptions being enabled and handled. Nothing else is asked of the trap
unit: whatever `main` has left there will do. (`x0` reads zero in every reachable state.)
-/
structure Returned (ret : CodeAddr) (s : State) : Prop where
  pc : s.pc = ret.val
  mie : mie s = true
  mtvec : s.mtvec.extractLsb' 2 62 ++ 0#2 = (ret.plus 5).val
  zero : s.regs 0 = 0

/-- The `ebreak` after `main`. -/
theorem finish_leads (hram : C.Altsyncram) (hcode : Code C.rom ret tail) (hr : Returned ret s) :
    Stopping C (s.regs a0) (Function.update s.ram.words 0 1) (ToDone ret) ((step C)^[3] s) ∧
      (Finished ((step C)^[2] s) ↔ Finished s) := by
  obtain ⟨h, hshown⟩ := Core.exists_shows_bare (C := C) (hr.pc ▸ ret.aligned) hr.zero
  have hret : h.pc = ret := CodeAddr.ext (hshown.pc.symm.trans hr.pc)
  have hpart : Code C.rom ret [li t6 1, sdZero t6 0] := by
    have hpart : Code C.rom (ret.plus 0) [li t6 1, sdZero t6 0] :=
      hcode.slice 0 ⟨tail.drop 2, rfl⟩
    rwa [CodeAddr.plus_zero] at hpart
  obtain ⟨hs, hunit, hrunning⟩ := bare_block hram hpart rfl hshown hret
  obtain ⟨hpc, -⟩ := Hart.execs_plain (h := h) [li t6 1, sdZero t6 0] rfl
  have hregs : (h.execs [li t6 1, sdZero t6 0]).regs.val a0 = h.regs.val a0 := by
    rw [Hart.execs_cons, Hart.execs_cons, Hart.execs_nil, Hart.advance_li,
      Hart.advance_sdZero (by unfold Fits; decide)]
    exact Regs.write_val (by decide)
  have hmemory : (h.execs [li t6 1, sdZero t6 0]).memory =
      ByteMem.ofWords (Function.update s.ram.words 0 1) := by
    rw [Hart.execs_cons, Hart.execs_cons, Hart.execs_nil, Hart.advance_li,
      Hart.advance_sdZero (by unfold Fits; decide)]
    change h.memory.store _ 8 ((h.regs.write t6 _).val t6) = _
    rw [Regs.write_val (by decide), if_pos rfl, ← hshown.memory]
    exact ByteMem.ofWords_store_word (by decide) _
  generalize h.execs [li t6 1, sdZero t6 0] = h₂ at hs hpc hregs hmemory
  have hfetch := fetch_code C.rom hcode (k := 2) rfl (hpc.trans (by rw [hret]; rfl))
  obtain ⟨hs', hmasked⟩ := Core.bare_break (a := ret.plus 5) hram hs (hunit.mie.trans hr.mie)
    (by rw [hunit.mtvec]; exact hr.mtvec) hfetch
  refine ⟨⟨⟨Core.finished_ebreak (hs.fetch.trans hfetch), ?_, ?_⟩, hmasked, _, hs',
    .li rfl rfl⟩, hrunning⟩
  · exact (congrFun hs'.regs a0).trans (hregs.trans (congrFun hshown.regs a0).symm)
  · exact ByteMem.ofWords_inj.mp (hs'.memory.trans hmemory)

/-- **A program that returns** has ended three steps later, with its result, and for good. -/
theorem returned_ended (hram : C.Altsyncram) (hcode : Code C.rom ret tail)
    (hr : Returned ret s) {n : ℕ} (hn : 3 ≤ n) :
    Ended (s.regs a0) (Function.update s.ram.words 0 1) ((step C)^[n] s) := by
  obtain ⟨k, rfl⟩ := Nat.exists_eq_add_of_le hn
  rw [Nat.add_comm, Function.iterate_add_apply]
  exact ((toDone_step hram hcode).stays k _ (finish_leads hram hcode hr).1).1

/-- It has not ended before. -/
theorem returned_finished (hram : C.Altsyncram) (hcode : Code C.rom ret tail)
    (hr : Returned ret s) (hrunning : ¬ Finished s) {n : ℕ}
    (hn : Finished ((step C)^[n] s)) : 3 ≤ n := by
  by_contra hlt
  exact hrunning ((finish_leads hram hcode hr).2.mp (Core.finished_mono (by omega) hn))

/-! ## Exceptions -/

/--
The core has entered the handler for an exception that is not a breakpoint. Nothing else is
asked of the trap unit: `mepc` may be misaligned, as it is if a flip has sent the program to
an address where no instruction can be. (`x0` reads zero in every reachable state.)
-/
structure Trapped (ret : CodeAddr) (s : State) : Prop where
  pc : s.pc = (ret.plus 5).val
  mie : mie s = false
  mcause : s.mcause ≠ 3
  zero : s.regs 0 = 0

/-- **Every trap but a breakpoint** enters it, wherever the program has gone. -/
theorem trapped_of_raises (hm : mie s = true)
    (ha : s.mtvec.extractLsb' 2 62 ++ 0#2 = (ret.plus 5).val) (hzero : s.regs 0 = 0)
    {t : Trap} (ht : Core.Raises s (Core.instrMemText C s) t) (hne : t ≠ .ebreak) :
    Trapped ret (step C s) ∧ (step C s).mepc = s.pc := by
  have hi : Core.Unstalled Inputs.idle s := Core.idle_unstalled
  have htrap : Core.trapTrigger C Inputs.idle s ≠ 0 :=
    (Core.trapTrigger_iff_raises hi.stall hm).mpr ⟨t, ht⟩
  have hpc := Core.posedge_pc (C := C) hi
  rw [if_pos htrap, ha] at hpc
  have hcause : t.recorded ≠ 3 := by
    cases t with
    | ebreak => exact absurd rfl hne
    | illegal | ecall | load | store => decide
  rw [step, Core.cycle_eq_posedge rfl]
  refine ⟨⟨hpc, Core.mie_trap hi htrap, ?_, ?_⟩, (Core.posedge_trap hi.reset htrap).2.2⟩
  · rw [Core.posedge_mcause hi hm ht]
    exact hcause
  · rw [Core.posedge_regs hi.stall, Core.regfileNext_zero]
    exact hzero

/-- What the handler saves, from word 1 on. -/
def saved (s : State) : List (BitVec 64) :=
  [s.mcause, s.mepc, s.regs a1, s.regs a2, s.regs a3, s.regs a4, s.regs a5, s.regs sp, s.regs fp]

/-- The memory with the given words from word `k` on. -/
def dumped (k : BitVec 12) : List (BitVec 64) → (BitVec 12 → BitVec 64) → BitVec 12 → BitVec 64
  | [], words => words
  | v :: vs, words => dumped (k + 1) vs (Function.update words k v)

/-- The way to `never_ret_err`. -/
inductive ToErr (ret : CodeAddr) (h : Hart) : Prop
  | jump : h.pc = ret.plus 21 → ToErr ret h
  | err : h.pc = ret.plus 4 → ToErr ret h

theorem toErr_step (hram : C.Altsyncram) (hcode : Code C.rom ret tail) :
    Leads (step C) 1 (Stopping C result words (ToErr ret))
      (Stopping C result words (ToErr ret)) := by
  intro s hstop
  obtain ⟨he, hm, h, hs, hway⟩ := hstop
  cases hway with
  | jump hpc => exact he.jump hram hcode hm hs rfl rfl (by decide) hpc fun _ => .err
  | err hpc => exact he.jump hram hcode hm hs rfl rfl (by decide) hpc fun _ => .err

/-- An instruction of the handler that writes a register, and does nothing else. -/
structure Writes (C : Chip) (next : CodeAddr) (d : BitVec 5) (v : BitVec 64) (s s' : State) :
    Prop where
  shows : ∃ h, Shows C (bare s') h ∧ h.pc = next
  unit : Core.SameUnit s s'
  mcause : s'.mcause = s.mcause
  words : s'.ram.words = s.ram.words
  regs : ∀ r, s'.regs r = if r = d then v else s.regs r
  running : Finished s' ↔ Finished s

theorem writes_of_shows {k : ℕ} {x : Instr} {d : BitVec 5} {v : BitVec 64}
    (hs : Shows C (bare s) h) (hpc : h.pc = ret.plus k) (hfetch : h.fetch C.rom = x.encode)
    (hx : x.plain = true) (hd : d ≠ 0)
    (hnext : Shows C (bare (step C s)) { h.compute d v with cycles := h.cycles + 1 } ∧
      Core.SameUnit s (step C s)) : Writes C (ret.plus (k + 1)) d v s (step C s) where
  shows := ⟨_, hnext.1, (congrArg CodeAddr.next hpc).trans (CodeAddr.next_plus _ _)⟩
  unit := hnext.2
  mcause := hnext.1.mcause.trans hs.mcause.symm
  words := ByteMem.ofWords_inj.mp (hnext.1.memory.trans hs.memory.symm)
  regs r := by
    refine (congrFun hnext.1.regs r).trans ((Regs.write_val hd).trans ?_)
    exact if_congr Iff.rfl rfl (congrFun hs.regs r).symm
  running := by
    have hw : Core.instrMemText C s = x.encode := hs.fetch.trans hfetch
    rw [Core.finished_step_iff, hw, or_iff_left (Core.not_breaks_plain hx)]

/-- A CSR that the handler reads. -/
theorem writes_csrr (hram : C.Altsyncram) (hcode : Code C.rom ret tail) {k : ℕ} {d : BitVec 5}
    {c : Csr} (hk : tail[k]? = some (csrr d c)) (hd : d ≠ 0)
    (hc : c.addr ≠ 0x300#12 ∧ c.addr ≠ 0x305#12)
    (hs : ∃ h, Shows C (bare s) h ∧ h.pc = ret.plus k) :
    Writes C (ret.plus (k + 1)) d (Core.csrRead C s c.addr) s (step C s) := by
  obtain ⟨h, hs, hpc⟩ := hs
  have hfetch := fetch_code C.rom hcode hk hpc
  have hplain : (csrr d c).plain = true := by
    rw [csrr, Instr.plain, Csr.pick_addr]
    rfl
  exact writes_of_shows hs hpc hfetch hplain hd (bare_csrr hram hs hc hfetch)

/-- What the first instructions of the handler have read. -/
structure Read (C : Chip) (ret : CodeAddr) (s s' : State) : Prop where
  shows : ∃ h, Shows C (bare s') h ∧ h.pc = ret.plus 8
  mie : mie s' = false
  words : s'.ram.words = s.ram.words
  regs : ∀ r, s'.regs r = if r = t1 then s.mepc else if r = t0 then s.mcause else
    if r = t2 then 3 else s.regs r

/-- The first three instructions of the handler. -/
theorem reads_leads (hram : C.Altsyncram) (hcode : Code C.rom ret tail) (ht : Trapped ret s) :
    Read C ret s ((step C)^[3] s) ∧ (Finished ((step C)^[3] s) ↔ Finished s) := by
  obtain ⟨h, hs⟩ := Core.exists_shows_bare (C := C) (ht.pc ▸ (ret.plus 5).aligned) ht.zero
  have hpc : h.pc = ret.plus 5 := CodeAddr.ext (hs.pc.symm.trans ht.pc)
  have hfetch := fetch_code C.rom hcode (k := 5) (x := li t2 3) rfl hpc
  have hnext := bare_advance hram hs rfl hfetch
  rw [Hart.advance_li] at hnext
  have h₁ := writes_of_shows hs hpc hfetch rfl (by decide) hnext
  have h₂ := writes_csrr hram hcode (d := t0) (c := .mcause) rfl (by decide) (by decide) h₁.shows
  have h₃ := writes_csrr hram hcode (d := t1) (c := .mepc) rfl (by decide) (by decide) h₂.shows
  have hmcause : Core.csrRead C (step C s) Csr.mcause.addr = s.mcause := h₁.mcause
  have hmepc : Core.csrRead C (step C (step C s)) Csr.mepc.addr = s.mepc :=
    h₂.unit.mepc.trans h₁.unit.mepc
  have hunit := h₁.unit.trans (h₂.unit.trans h₃.unit)
  refine ⟨⟨h₃.shows, hunit.mie.trans ht.mie, h₃.words.trans (h₂.words.trans h₁.words), fun r => ?_⟩,
    h₃.running.trans (h₂.running.trans h₁.running)⟩
  refine (h₃.regs r).trans (if_congr Iff.rfl hmepc ?_)
  exact (h₂.regs r).trans (if_congr Iff.rfl hmcause (h₁.regs r))

/-- The branch on the cause, for any cause but a breakpoint. -/
theorem branch_leads (hram : C.Altsyncram) (hcode : Code C.rom ret tail)
    (hr : Read C ret s₀ s) (hcause : s₀.mcause ≠ 3) :
    (∃ h, Shows C (bare (step C s)) h ∧ h.pc = ret.plus 10) ∧ mie (step C s) = false ∧
      (step C s).ram.words = s.ram.words ∧ (step C s).regs = s.regs ∧
      (Finished (step C s) ↔ Finished s) := by
  obtain ⟨h, hs, hpc⟩ := hr.shows
  have hfetch := fetch_code C.rom hcode (k := 8) rfl hpc
  have hw : Core.instrMemText C s = _ := hs.fetch.trans hfetch
  obtain ⟨hbare, hunit⟩ := bare_masked hs hr.mie hfetch (by decide)
  have hs' := Core.step_branchBy (a := ret.plus 10) hram hs (by decide) hfetch (by decide)
    (by rw [hpc]; exact ret.plus_offset (by decide))
  have htaken : BranchOp.bne.taken (h.regs.val t0) (h.regs.val t2) = true := by
    have hread : ∀ r, h.regs.val r = s.regs r := fun r => (congrFun hs.regs r).symm
    rw [hread, hread, hr.regs, hr.regs, if_neg (by decide), if_pos rfl, if_neg (by decide),
      if_neg (by decide), if_pos rfl]
    exact bne_iff_ne.mpr hcause
  rw [htaken, if_pos rfl, ← hbare] at hs'
  refine ⟨⟨_, hs', rfl⟩, hunit.mie.trans hr.mie, ?_, ?_, ?_⟩
  · exact ByteMem.ofWords_inj.mp (hs'.memory.trans hs.memory.symm)
  · exact hs'.regs.trans hs.regs.symm
  · rw [Core.finished_step_iff, hw]
    refine or_iff_left fun hb => ?_
    have hop := hb.1
    rw [branchBy, Instr.encode, opcode_word] at hop
    exact absurd hop (by decide)

/-- The registers that the handler saves, and where. -/
def savedRegs : List (BitVec 5 × BitVec 12) :=
  [(t0, 8), (t1, 16), (a1, 24), (a2, 32), (a3, 40), (a4, 48), (a5, 56), (sp, 64), (fp, 72)]

/-- The saves, from behind the branch to the `ebreak`. -/
theorem saves_leads (hram : C.Altsyncram) (hcode : Code C.rom ret tail) (hs : Shows C (bare s) h)
    (hpc : h.pc = ret.plus 10) (hm : mie s = false) :
    Stopping C (-1) (savedRegs.foldl (fun w p => Function.update w
        ((p.2.signExtend 64).extractLsb' 3 12) (s.regs p.1)) s.ram.words)
      (ToErr ret) ((step C)^[11] s) ∧ (Finished ((step C)^[10] s) ↔ Finished s) := by
  have hpart : Code C.rom (ret.plus 10) saves := hcode.slice 10 ⟨tail.drop 20, rfl⟩
  obtain ⟨hs₁, hunit, hrunning⟩ := bare_block hram hpart rfl hs hpc
  obtain ⟨hpc₁, -⟩ := Hart.execs_plain (h := h) saves rfl
  have hstart : h.memory = ByteMem.ofWords s.ram.words := hs.memory.symm
  have hread : h.regs.val = s.regs := hs.regs.symm
  obtain ⟨-, hmemory⟩ := Hart.execs_saves savedRegs (by simp [savedRegs]) hstart
  rw [hread] at hmemory
  have hlast : h.execs saves =
      (h.execs (savedRegs.map fun p => sdZero p.1 p.2)).advance (li a0 (-1)) := rfl
  rw [Hart.advance_li] at hlast
  generalize h.execs (savedRegs.map fun p => sdZero p.1 p.2) = h₀ at hlast hmemory
  have hregs : (h.execs saves).regs.val a0 = -1 := by
    rw [hlast]
    exact (Regs.write_val (by decide)).trans (if_pos rfl)
  have hwords := (congrArg Hart.memory hlast).trans hmemory
  generalize h.execs saves = h₁ at hs₁ hpc₁ hregs hwords
  have hpc₂ : h₁.pc = ret.plus 20 := hpc₁.trans (by rw [hpc, CodeAddr.plus_plus]; rfl)
  have hfetch := fetch_code C.rom hcode (k := 20) rfl hpc₂
  have hm₁ := hunit.mie.trans hm
  obtain ⟨hs₂, hunit₂⟩ := bare_skip hram hs₁ hm₁ hfetch
  have hlen : saves.length = 10 := rfl
  rw [hlen] at hs₂ hs₁ hunit₂ hm₁ hrunning
  rw [Function.iterate_succ_apply']
  generalize (step C)^[10] s = s₁ at hs₁ hs₂ hunit₂ hm₁ hrunning
  refine ⟨⟨⟨Core.finished_ebreak (hs₁.fetch.trans hfetch), ?_, ?_⟩, hunit₂.mie.trans hm₁, _, hs₂,
    .jump ?_⟩, hrunning⟩
  · exact (congrFun hs₂.regs a0).trans hregs
  · exact ByteMem.ofWords_inj.mp (hs₂.memory.trans hwords)
  · exact (congrArg CodeAddr.next hpc₂).trans (CodeAddr.next_plus _ _)

/-- The handler, from its entry to its `ebreak`. -/
theorem handler_leads (hram : C.Altsyncram) (hcode : Code C.rom ret tail) (ht : Trapped ret s) :
    Stopping C (-1) (dumped 1 (saved s) s.ram.words) (ToErr ret) ((step C)^[15] s) ∧
      (Finished ((step C)^[14] s) ↔ Finished s) := by
  obtain ⟨hr, hend₃⟩ := reads_leads hram hcode ht
  obtain ⟨⟨h, hs, hpc⟩, hm, hwords, hregs, hend⟩ := branch_leads hram hcode hr ht.mcause
  obtain ⟨hstop, hrunning⟩ := saves_leads hram hcode hs hpc hm
  have hdump : savedRegs.foldl (fun w p => Function.update w ((p.2.signExtend 64).extractLsb' 3 12)
      ((step C ((step C)^[3] s)).regs p.1)) (step C ((step C)^[3] s)).ram.words =
        dumped 1 (saved s) s.ram.words := by
    rw [hregs, hwords, hr.words]
    simp only [savedRegs, saved, List.foldl_cons, List.foldl_nil, hr.regs]
    rfl
  rw [hdump] at hstop
  rw [← Function.iterate_succ_apply' (step C), ← Function.iterate_add_apply] at hstop hrunning
  rw [← Function.iterate_succ_apply' (step C)] at hend
  exact ⟨hstop, hrunning.trans (hend.trans hend₃)⟩

/-- **A program that raises an exception** has ended fifteen steps after it: with -1, and with
the cause, the place and the registers that the handler saves. -/
theorem trapped_ended (hram : C.Altsyncram) (hcode : Code C.rom ret tail)
    (ht : Trapped ret s) {n : ℕ} (hn : 15 ≤ n) :
    Ended (-1) (dumped 1 (saved s) s.ram.words) ((step C)^[n] s) := by
  obtain ⟨k, rfl⟩ := Nat.exists_eq_add_of_le hn
  rw [Nat.add_comm, Function.iterate_add_apply]
  exact ((toErr_step hram hcode).stays k _ (handler_leads hram hcode ht).1).1

theorem trapped_finished (hram : C.Altsyncram) (hcode : Code C.rom ret tail)
    (ht : Trapped ret s) (hrunning : ¬ Finished s) {n : ℕ}
    (hn : Finished ((step C)^[n] s)) : 15 ≤ n := by
  by_contra hlt
  exact hrunning ((handler_leads hram hcode ht).2.mp (Core.finished_mono (by omega) hn))

/-! ## The report -/

section Report

variable {m : Injector.Macros} {before after : State} {n j : ℕ} {run : Soft.Run}

/-- A program that is known to end in one way only is reported so. -/
theorem reported_ended (hreport : Injector.Reports C m before after n run)
    (hle : run.watchdog ≤ m.programMaxDuration) (hrunning : ¬ Finished ((step C)^[j] after))
    (hend : ∀ k, Finished ((step C)^[k] ((step C)^[j] after)) →
      Ended result words ((step C)^[k] ((step C)^[j] after))) :
    run.result = result ∧ ∀ k, run.memory k = words (BitVec.ofNat 12 k.val) := by
  obtain ⟨hfinished, hresult⟩ := hreport.result hle
  -- what is reported was read after the end
  have hlate : j ≤ n := by
    by_contra hlt
    exact hrunning (Core.finished_mono (by omega) hfinished)
  obtain ⟨k, rfl⟩ := Nat.exists_eq_add_of_le hlate
  have hsplit : (step C)^[j + k] after = (step C)^[k] ((step C)^[j] after) := by
    rw [Nat.add_comm, Function.iterate_add_apply]
  rw [hsplit] at hfinished hresult
  have he := hend k hfinished
  refine ⟨hresult.trans he.result, fun i => ?_⟩
  rw [hreport.memory i, hsplit, he.words]

/--
**A reported result is what `main` returned**, if that is how the program ended: with 1 in
the first word of the reported memory, and the rest as `main` left it.
-/
theorem reported_return (hram : C.Altsyncram) (hcode : Code C.rom ret tail)
    (hreport : Injector.Reports C m before after n run) (hle : run.watchdog ≤ m.programMaxDuration)
    (hr : Returned ret ((step C)^[j] after)) (hrunning : ¬ Finished ((step C)^[j] after)) :
    run.result = ((step C)^[j] after).regs a0 ∧ ∀ k, run.memory k =
      Function.update ((step C)^[j] after).ram.words 0 1 (BitVec.ofNat 12 k.val) :=
  reported_ended hreport hle hrunning fun _ hfinished =>
    returned_ended hram hcode hr (returned_finished hram hcode hr hrunning hfinished)

/-- Nothing but the end of a program. -/
def tailOnly : Chip := Chip.ofProgram (tail.map Instr.encode)

/-- `main` has returned 42. -/
def returned42 : State :=
  { State.released (fun _ => 0) 0 with
    regs := fun r => if r = a0 then 42 else 0
    mstatus := statusWord 0b11#2 true true
    mtvec := 20 }

/-- A report on the given steps. -/
def reportOf (C : Chip) (m : Injector.Macros) (before after : State) (n : ℕ) : Soft.Run where
  injectedPc := before.pc
  currentVal := Injector.shown (Injector.target m) before
  newVal := Injector.shown (Injector.target m) after
  pc := ((step C)^[n] after).pc
  result := ((step C)^[n] after).regs a0
  watchdog := 0
  programMaxDuration := m.programMaxDuration
  memory k := ((step C)^[n] after).ram.words (BitVec.ofNat 12 k.val)

theorem reportOf_reports (hfinished : Finished ((step C)^[n] after)) :
    Injector.Reports C m before after n (reportOf C m before after n) :=
  ⟨rfl, rfl, rfl, rfl, fun _ => rfl, rfl, fun _ => ⟨hfinished, rfl⟩, Nat.zero_le n,
    fun _ h => absurd h (Nat.not_lt_zero _)⟩

theorem reported_return_42 :
    (reportOf tailOnly Injector.flipX5 returned42 returned42 3).result = 42 := by
  have hcode : Code tailOnly.rom origin tail := code_ofProgram (by decide)
  have hr : Returned origin returned42 := ⟨rfl, by decide, by decide, rfl⟩
  have hend := returned_ended (Chip.ofProgram_altsyncram _) hcode hr (Nat.le_refl 3)
  have hreport : Injector.Reports tailOnly Injector.flipX5 returned42 returned42 3 _ :=
    reportOf_reports hend.finished
  exact (reported_return (j := 0) (Chip.ofProgram_altsyncram _) hcode hreport (by decide) hr
    (fun hf => absurd hf (by unfold Finished; decide))).1

/--
**A reported exception**: the result is -1, and the reported memory holds from its second
word on the cause, the place and the registers that the handler saves.
-/
theorem reported_trap (hram : C.Altsyncram) (hcode : Code C.rom ret tail)
    (hreport : Injector.Reports C m before after n run) (hle : run.watchdog ≤ m.programMaxDuration)
    (ht : Trapped ret ((step C)^[j] after)) (hrunning : ¬ Finished ((step C)^[j] after)) :
    run.result = -1 ∧ ∀ k, run.memory k = dumped 1 (saved ((step C)^[j] after))
      ((step C)^[j] after).ram.words (BitVec.ofNat 12 k.val) :=
  reported_ended hreport hle hrunning fun _ hfinished =>
    trapped_ended hram hcode ht (trapped_finished hram hcode ht hrunning hfinished)

/-- A flip has sent the program behind its end, to an address where no instruction can be. -/
def astray : State :=
  { State.released (fun _ => 0) 0 with
    pc := 138
    mstatus := statusWord 0b00#2 false true
    mtvec := 20 }

theorem reported_trap_illegal :
    (reportOf tailOnly Injector.flipX5 astray astray 16).result = -1 ∧
      (reportOf tailOnly Injector.flipX5 astray astray 16).memory 2 = 138 := by
  have hcode : Code tailOnly.rom origin tail := code_ofProgram (by decide)
  have hraises : Core.Raises astray (Core.instrMemText tailOnly astray) .illegal :=
    .inl (by decide)
  have hmie : mie astray = true := by decide
  have hvector : astray.mtvec.extractLsb' 2 62 ++ 0#2 = (origin.plus 5).val := by decide
  obtain ⟨ht, hmepc⟩ := trapped_of_raises hmie hvector rfl hraises (by decide)
  have hrunning : ¬ Finished (step tailOnly astray) := by
    rw [Core.finished_step_iff, Core.Breaks, Finished]
    decide
  have hend : Finished ((step tailOnly)^[16] astray) :=
    (trapped_ended (Chip.ofProgram_altsyncram _) hcode ht (Nat.le_refl 15)).finished
  have hreport : Injector.Reports tailOnly Injector.flipX5 astray astray 16 _ :=
    reportOf_reports hend
  obtain ⟨hresult, hmemory⟩ := reported_trap (j := 1) (Chip.ofProgram_altsyncram _) hcode hreport
    (by decide) ht hrunning
  exact ⟨hresult, (hmemory 2).trans hmepc⟩

end Report

/-! ## The start -/

variable {L : Linked} {sym : Symbols} {pc : CodeAddr} {d : BitVec 5} {v : BitVec 64}
  {xs : List Instr}

/-- **A `la`**, in either form. -/
theorem La.execs (hla : La pc d v xs) (hd : d ≠ 0) (hpc : h.pc = pc) :
    xs.all Instr.plain = true ∧ (h.execs xs).regs = h.regs.write d v ∧
      (h.execs xs).memory = h.memory := by
  cases hla with
  | relative hv =>
      rename_i high low
      refine ⟨rfl, ?_, rfl⟩
      change (h.regs.write d _).write d ((h.regs.write d _).val d + low.signExtend 64) = _
      rw [Regs.write_write, Regs.write_val hd, if_pos rfl, hpc, hv]
  | absolute hv =>
      refine ⟨rfl, ?_, ?_⟩
      · rw [Hart.execs_cons, Hart.execs_nil, Hart.advance_li, hv]
        rfl
      · rw [Hart.execs_cons, Hart.execs_nil, Hart.advance_li]
        rfl

theorem La.length (hla : La pc d v xs) : 1 ≤ xs.length ∧ xs.length ≤ 2 := by
  cases hla with
  | relative _ => exact ⟨Nat.le_succ 1, Nat.le_refl 2⟩
  | absolute _ => exact ⟨Nat.le_refl 1, Nat.le_succ 1⟩

/-- The handler is at an address that `mtvec` can hold. -/
theorem mtvec_addr (hl : Links L sym) :
    (TrapVector.ofWord ((returnTo L).plus 5).val).addr = (returnTo L).plus 5 := by
  have hret : (returnTo L).plus 5 =
      origin.plus (L.laGp.length + L.laSp.length + L.laT5.length + 11) := by
    simp only [returnTo, atCall, atMtvec, atEnable, atStack, CodeAddr.plus_plus, start, stack,
      enable, List.length_cons, List.length_append, List.length_nil]
    congr 1
    omega
  obtain ⟨hgp, hgp'⟩ := hl.laGp.length
  obtain ⟨hsp, hsp'⟩ := hl.laSp.length
  obtain ⟨ht5, ht5'⟩ := hl.laT5.length
  rw [hret]
  generalize hk : L.laGp.length + L.laSp.length + L.laT5.length + 11 = k
  refine CodeAddr.ext ?_
  have hlo : 14 ≤ k := by omega
  have hhi : k ≤ 17 := by omega
  interval_cases k <;> rfl

/-- What `main` finds. -/
structure Called (C : Chip) (L : Linked) (sym : Symbols) (words : BitVec 12 → BitVec 64)
    (s : State) (h : Hart) : Prop where
  shows : Shows C s h
  pc : h.pc = sym.main
  ra : h.regs.val ra = (returnTo L).val
  gp : h.regs.val gp = sym.globalPointer
  sp : h.regs.val sp = sym.stackTop
  fp : h.regs.val fp = sym.stackTop
  mode : h.mode = .machine
  mie : h.mie = true
  mtvec : h.mtvec.addr = (returnTo L).plus 5
  words : s.ram.words = Function.update words 0 0

/-- The first block, up to the reset of the LEDs. -/
theorem start_execs (hl : Links L sym) (hpc : h.pc = origin) :
    (start L).all Instr.plain = true ∧
      (h.execs (start L)).regs = h.regs.write gp sym.globalPointer ∧
      (h.execs (start L)).memory = h.memory.store 0 8 (0 : BitVec 64) := by
  have hnop : h.advance (li zero 0) = { h.skip with cycles := h.cycles + 1 } := by
    rw [Hart.advance_li, Hart.compute, Regs.write_zero]
    rfl
  obtain ⟨hplain, hregs, hmemory⟩ := hl.laGp.execs (h := h.advance (li zero 0)) (by decide) (by
    rw [hnop, ← hpc]
    exact (congrArg CodeAddr.next (CodeAddr.plus_zero _).symm).trans (CodeAddr.next_plus _ 0))
  rw [hnop] at hregs hmemory
  have hsplit : h.execs (start L) =
      ((h.advance (li zero 0)).execs L.laGp).advance (sdZero zero 0) := by
    rw [start, Hart.execs_cons, Hart.execs_append]
    rfl
  rw [hnop, Hart.advance_sdZero (by unfold Fits; decide)] at hsplit
  refine ⟨?_, ?_, ?_⟩
  · rw [start, List.all_cons, List.all_append, hplain]
    rfl
  · rw [hsplit]
    exact hregs
  · rw [hsplit]
    change (Hart.memory _).store _ 8 ((Hart.regs _).val 0) = _
    rw [hmemory, Regs.zero]
    rfl

/-- The second block. -/
theorem stack_execs (hl : Links L sym) (hpc : h.pc = atStack L) :
    (stack L).all Instr.plain = true ∧
      (h.execs (stack L)).regs = (h.regs.write sp sym.stackTop).write fp sym.stackTop ∧
      (h.execs (stack L)).memory = h.memory := by
  obtain ⟨hplain, hregs, hmemory⟩ := hl.laSp.execs (by decide) hpc
  have hsplit : h.execs (stack L) = (h.execs L.laSp).advance (.opImm .addi fp sp 0) := by
    rw [stack, Hart.execs_append]
    rfl
  have hmove : ((h.execs L.laSp).advance (.opImm .addi fp sp 0)).regs =
      (h.execs L.laSp).regs.write fp ((h.execs L.laSp).regs.val sp + (0#12).signExtend 64) := rfl
  have hzero : (0#12).signExtend 64 = 0#64 := by decide
  refine ⟨?_, ?_, ?_⟩
  · rw [stack, List.all_append, hplain]
    rfl
  · rw [hsplit, hmove, hregs, Regs.write_val (by decide), if_pos rfl, hzero, BitVec.add_zero]
  · rw [hsplit]
    exact hmemory

/-- How many steps the start takes. -/
def startSteps (L : Linked) : ℕ :=
  1 + (1 + (L.laT5.length + (1 + ((stack L).length + (start L).length))))

/--
**The start.** Out of reset, the program comes to `main` with its stack, its global pointer
and its return address, with exceptions enabled and handled, and with the LEDs reset.
-/
theorem start_called (hram : C.Altsyncram) (hl : Links L sym) (hcode : Code C.rom origin (code L))
    (hs : Shows C s h) (hpc : h.pc = origin) (hmode : h.mode = .machine) :
    ∃ h', Called C L sym s.ram.words ((step C)^[startSteps L] s) h' := by
  obtain ⟨hstart, hcode⟩ := hcode.append
  obtain ⟨hstack, hcode⟩ := hcode.append
  obtain ⟨henable, hcode⟩ := hcode.append
  obtain ⟨hcsrw, hcode⟩ := hcode.append
  obtain ⟨hcall, -⟩ := hcode.append
  obtain ⟨hplain, hregs, hmemory⟩ := start_execs hl hpc
  have hs₁ := (run_block hram hstart hplain hs hpc).1
  obtain ⟨hpc₁, hunit₁⟩ := Hart.execs_plain (h := h) _ hplain
  rw [hpc] at hpc₁
  generalize h.execs (start L) = h₁ at hs₁ hpc₁ hunit₁ hregs hmemory
  -- the stack
  obtain ⟨hplain, hregs₂, hmemory₂⟩ := stack_execs hl hpc₁
  have hs₂ := (run_block hram hstack hplain hs₁ hpc₁).1
  obtain ⟨hpc₂, hunit₂⟩ := Hart.execs_plain (h := h₁) _ hplain
  rw [hpc₁] at hpc₂
  generalize h₁.execs (stack L) = h₂ at hs₂ hpc₂ hunit₂ hregs₂ hmemory₂
  -- the exceptions, with the address of the handler loaded between the two CSR writes
  have hs₃ := Core.step_enable hram hs₂
    (fetch_code C.rom henable (k := 0) rfl (hpc₂.trans (CodeAddr.plus_zero _).symm))
  have hpc₃ : h₂.skip.pc = (atEnable L).plus 1 :=
    (congrArg CodeAddr.next (hpc₂.trans (CodeAddr.plus_zero _).symm)).trans (CodeAddr.next_plus _ 0)
  have hla : Code C.rom ((atEnable L).plus 1) L.laT5 := henable.slice 1 (List.prefix_refl _)
  obtain ⟨hplain, hregs₃, hmemory₃⟩ := hl.laT5.execs
    (h := { h₂.skip with mie := true, cycles := h₂.cycles + 1 }) (by decide) hpc₃
  have hs₄ := (run_block hram hla hplain hs₃ hpc₃).1
  obtain ⟨hpc₄, hunit₄⟩ := Hart.execs_plain
    (h := { h₂.skip with mie := true, cycles := h₂.cycles + 1 }) _ hplain
  change _ = h₂.skip.pc.plus _ at hpc₄
  rw [hpc₃, CodeAddr.plus_plus, Nat.add_comm 1] at hpc₄
  generalize Hart.execs L.laT5 _ = h₄ at hs₄ hpc₄ hunit₄ hregs₃ hmemory₃
  have hs₅ := Core.step_csrwMtvec hram hs₄
    (fetch_code C.rom hcsrw (k := 0) rfl (hpc₄.trans (CodeAddr.plus_zero _).symm))
  have hpc₅ : h₄.skip.pc = atCall L :=
    (congrArg CodeAddr.next (hpc₄.trans (CodeAddr.plus_zero _).symm)).trans (CodeAddr.next_plus _ 0)
  -- the call
  have hs₆ := Core.step_jal_shows (a := sym.main) hram hs₅
    (fetch_code C.rom hcall (k := 0) rfl (hpc₅.trans (CodeAddr.plus_zero _).symm)) hl.even
    ((congrArg (fun a : CodeAddr => a.val + L.main.signExtend 64) hpc₅).trans hl.main)
  have hlink : h₄.skip.pc.next = returnTo L := by
    rw [hpc₅, ← CodeAddr.plus_zero (atCall L)]
    exact CodeAddr.next_plus _ 0
  have hreg : ∀ r, (h₄.regs.write ra h₄.skip.pc.next.val).val r =
      if r = ra then (returnTo L).val else if r = t5 then ((returnTo L).plus 5).val else
        if r = fp then sym.stackTop else if r = sp then sym.stackTop else
          if r = gp then sym.globalPointer else h.regs.val r := by
    intro r
    have hregs₄ : h₄.regs = h₂.regs.write t5 ((returnTo L).plus 5).val := hregs₃
    rw [hlink, Regs.write_val (by decide), hregs₄, Regs.write_val (by decide), hregs₂,
      Regs.write_val (by decide), Regs.write_val (by decide), hregs, Regs.write_val (by decide)]
  have hmemory₄ : h₄.memory = h.memory.store 0 8 (0 : BitVec 64) :=
    hmemory₃.trans (hmemory₂.trans hmemory)
  have ht5 : h₄.regs.val t5 = ((returnTo L).plus 5).val := by
    rw [hregs₃]
    exact (Regs.write_val (by decide)).trans (if_pos rfl)
  rw [startSteps, Function.iterate_add_apply, Function.iterate_add_apply,
    Function.iterate_add_apply, Function.iterate_add_apply, Function.iterate_add_apply]
  refine ⟨_, hs₆, rfl, ?_, ?_, ?_, ?_, ?_, ?_, ?_, ?_⟩
  · exact (hreg ra).trans (if_pos rfl)
  · exact hreg gp
  · exact hreg sp
  · exact hreg fp
  · exact hunit₄.mode.trans (hunit₂.mode.trans (hunit₁.mode.trans hmode))
  · exact hunit₄.mie
  · exact (congrArg (fun v => (TrapVector.ofWord v).addr) ht5).trans (mtvec_addr hl)
  · refine ByteMem.ofWords_inj.mp (hs₆.memory.trans (hmemory₄.trans ?_))
    rw [← hs.memory]
    exact ByteMem.ofWords_store_word (by decide) _

/-- A program linked with its `main` right behind the handler. -/
def smallest : Linked where
  laGp := [.auipc gp 3, .opImm .addi gp gp (-4)]
  laSp := [.auipc sp 2, .opImm .addi sp sp (-16)]
  laT5 := [li t5 0x40]
  main := 0x5c

def smallestSymbols : Symbols where
  globalPointer := 0x3000
  stackTop := 0x2000
  main := origin.plus 33

theorem smallest_links : Links smallest smallestSymbols where
  laGp := .relative (by decide)
  laSp := .relative (by decide)
  laT5 := .absolute (by decide)
  main := by decide
  even := rfl

theorem start_called_smallest :
    ∃ h, Called (Chip.ofProgram ((code smallest).map Instr.encode)) smallest smallestSymbols
      (fun _ => 0) ((step (Chip.ofProgram ((code smallest).map Instr.encode)))^[startSteps smallest]
        (State.released (fun _ => 0) 0)) h :=
  start_called (Chip.ofProgram_altsyncram _) smallest_links (code_ofProgram (by decide))
    (Core.shows_released _ (fun _ => 0) 0) rfl rfl

end Entry

end PassiFlo
