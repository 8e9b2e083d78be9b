import PassiFlo.Isa.Hart

/-!
# Code

Instructions in the ROM, and what a block of them does that is run from its first to its
last.
-/

namespace PassiFlo

namespace Isa

open Lanes

/-- The address of instruction `k` of the code at `a`. -/
def CodeAddr.plus (a : CodeAddr) (k : ℕ) : CodeAddr where
  val := a.val + BitVec.ofNat 64 (4 * k)
  aligned := by
    rw [add_aligned a.aligned]
    have hzero : BitVec.toNat (0 : BitVec 2) = 0 := rfl
    refine BitVec.eq_of_toNat_eq ?_
    rw [BitVec.extractLsb'_toNat, BitVec.toNat_ofNat, Nat.shiftRight_zero, hzero]
    omega

/-- Where programs start. -/
def origin : CodeAddr := ⟨0, rfl⟩

@[simp] theorem CodeAddr.plus_zero (a : CodeAddr) : a.plus 0 = a :=
  CodeAddr.ext (BitVec.add_zero _)

@[simp] theorem CodeAddr.next_plus (a : CodeAddr) (k : ℕ) : (a.plus k).next = a.plus (k + 1) := by
  refine CodeAddr.ext ?_
  change a.val + BitVec.ofNat 64 (4 * k) + 4 = a.val + BitVec.ofNat 64 (4 * (k + 1))
  rw [BitVec.add_assoc, Nat.mul_succ, BitVec.ofNat_add]
  rfl

theorem CodeAddr.plus_plus (a : CodeAddr) (k l : ℕ) : (a.plus k).plus l = a.plus (k + l) := by
  refine CodeAddr.ext ?_
  change a.val + BitVec.ofNat 64 (4 * k) + BitVec.ofNat 64 (4 * l) =
    a.val + BitVec.ofNat 64 (4 * (k + l))
  rw [BitVec.add_assoc, Nat.mul_add, BitVec.ofNat_add]

/-- Where a transfer inside the code goes. -/
theorem CodeAddr.plus_offset (a : CodeAddr) {j k : ℕ} {offset : BitVec 64}
    (h : BitVec.ofNat 64 (4 * k) + offset = BitVec.ofNat 64 (4 * j)) :
    (a.plus k).val + offset = (a.plus j).val := by
  change a.val + BitVec.ofNat 64 (4 * k) + offset = a.val + BitVec.ofNat 64 (4 * j)
  rw [BitVec.add_assoc, h]

/-- An address of an instruction is one. -/
@[simp] theorem CodeAddr.ofWord_val (a : CodeAddr) : ofWord a.val = some a := dif_pos a.aligned

namespace Regs

variable {regs : Regs} {d r : BitVec 5} {v : BitVec 64}

/-- A read after a write. -/
theorem write_val (h : d ≠ 0) : (regs.write d v).val r = if r = d then v else regs.val r := by
  change writeReg d v regs.val r = _
  rw [writeReg, if_neg h, Function.update_apply]

theorem write_write {v' : BitVec 64} : (regs.write d v).write d v' = regs.write d v' := by
  refine Regs.ext ?_
  change writeReg d v' (writeReg d v regs.val) = writeReg d v' regs.val
  unfold writeReg
  split_ifs
  · rfl
  · exact Function.update_idem _ _ _

@[simp] theorem write_zero : regs.write 0 v = regs := by
  refine Regs.ext ?_
  change writeReg 0 v regs.val = regs.val
  exact if_pos rfl

end Regs

/-- The ROM holds the code at `a`. -/
def Code (rom : BitVec 10 → BitVec 32) (a : CodeAddr) (code : List Instr) : Prop :=
  ∀ k x, code[k]? = some x → rom ((a.plus k).val.extractLsb' 2 10) = x.encode

/-- A part of the code. -/
theorem Code.slice {rom : BitVec 10 → BitVec 32} {a : CodeAddr} {code part : List Instr}
    (h : Code rom a code) (k : ℕ) (hpart : part <+: code.drop k) : Code rom (a.plus k) part := by
  intro l x hx
  obtain ⟨rest, hrest⟩ := hpart
  have hlt : l < part.length := (List.getElem?_eq_some_iff.mp hx).1
  have hl : code[k + l]? = some x := by
    rw [← List.getElem?_drop, ← hrest, List.getElem?_append_left hlt, hx]
  have hword := h (k + l) x hl
  rwa [← CodeAddr.plus_plus] at hword

theorem Code.append {rom : BitVec 10 → BitVec 32} {a : CodeAddr} {xs ys : List Instr}
    (h : Code rom a (xs ++ ys)) : Code rom a xs ∧ Code rom (a.plus xs.length) ys := by
  constructor
  · have hpart := h.slice 0 (List.prefix_append xs ys)
    rwa [CodeAddr.plus_zero] at hpart
  · refine h.slice xs.length ?_
    rw [List.drop_left]

/-! ## Registers by their names -/

namespace Reg

abbrev zero : BitVec 5 := 0
abbrev ra : BitVec 5 := 1
abbrev sp : BitVec 5 := 2
abbrev gp : BitVec 5 := 3
abbrev t0 : BitVec 5 := 5
abbrev t1 : BitVec 5 := 6
abbrev t2 : BitVec 5 := 7
abbrev fp : BitVec 5 := 8
abbrev a0 : BitVec 5 := 10
abbrev a1 : BitVec 5 := 11
abbrev a2 : BitVec 5 := 12
abbrev a3 : BitVec 5 := 13
abbrev a4 : BitVec 5 := 14
abbrev a5 : BitVec 5 := 15
abbrev t5 : BitVec 5 := 30
abbrev t6 : BitVec 5 := 31

end Reg

/-! ## Pseudo-instructions -/

/-- `li rd, imm`, for a small immediate. -/
def li (d : BitVec 5) (imm : BitVec 12) : Instr := .opImm .addi d 0 imm

/-- `sd rs, imm(zero)`. -/
def sdZero (r : BitVec 5) (imm : BitVec 12) : Instr :=
  .store .sd 0 r (imm.extractLsb' 5 7) (imm.extractLsb' 0 5)

/-- `csrr rd, csr`. -/
def csrr (d : BitVec 5) (c : Csr) : Instr := .csr .csrrs d 0 c.addr

/-- `jal`, by so many bytes. -/
def jal (d : BitVec 5) (offset : BitVec 21) : Instr :=
  .jal d (offset.extractLsb' 20 1 ++ offset.extractLsb' 1 10 ++ offset.extractLsb' 11 1 ++
    offset.extractLsb' 12 8)

/-- `j`, by so many bytes. -/
def j (offset : BitVec 21) : Instr := jal 0 offset

/-- A branch by so many bytes. -/
def branchBy (o : BranchOp) (r r' : BitVec 5) (offset : BitVec 13) : Instr :=
  .branch o r r' (offset.extractLsb' 12 1 ++ offset.extractLsb' 5 6)
    (offset.extractLsb' 1 4 ++ offset.extractLsb' 11 1)

/-- The assembler splits the offset of a jump as the J format joins it. -/
theorem jalOffset_jal {x : BitVec 21} (h : x.getLsbD 0 = false) :
    jalOffset (x.extractLsb' 20 1 ++ x.extractLsb' 1 10 ++ x.extractLsb' 11 1 ++
      x.extractLsb' 12 8) = x.signExtend 64 := by
  have hbit : x[0] = false := h
  refine congrArg (BitVec.signExtend 64) (BitVec.eq_of_getLsbD_eq fun k hk => ?_)
  simp only [BitVec.getLsbD_append, BitVec.getLsbD_extractLsb']
  interval_cases k <;> simp [hbit]

theorem branchOffset_branchBy {x : BitVec 13} (h : x.getLsbD 0 = false) :
    branchOffset (x.extractLsb' 12 1 ++ x.extractLsb' 5 6)
      (x.extractLsb' 1 4 ++ x.extractLsb' 11 1) = x.signExtend 64 := by
  have hbit : x[0] = false := h
  refine congrArg (BitVec.signExtend 64) (BitVec.eq_of_getLsbD_eq fun k hk => ?_)
  simp only [BitVec.getLsbD_append, BitVec.getLsbD_extractLsb']
  interval_cases k <;> simp [hbit]

theorem sdZero_imm (imm : BitVec 12) : imm.extractLsb' 5 7 ++ imm.extractLsb' 0 5 = imm :=
  append_funct7 imm

/-! ## Straight-line code -/

/--
The instruction goes on to the next one whatever the state, and nothing it does depends on
how the core departs from the instruction set.
-/
def Instr.plain : Instr → Bool
  | lui _ _ | auipc _ _ | opImm _ _ _ _ | addiw _ _ _ | op _ _ _ _ | fence _ _ _ => true
  | store o r _ hi lo => r == 0 && decide (Fits ((hi ++ lo).signExtend 64) o.bytes)
  | csr o _ r a => !o.writes r && (pick Csr.all Csr.addr a).isSome
  | _ => false

namespace Hart

variable {h : Hart}

/-- An instruction and its cycle. -/
def advance (h : Hart) (x : Instr) : Hart := { h.exec x with cycles := h.cycles + 1 }

/-- The instructions, one after the other. -/
def execs (xs : List Instr) (h : Hart) : Hart := xs.foldl advance h

@[simp] theorem execs_nil : h.execs [] = h := rfl

@[simp] theorem execs_cons (x : Instr) (xs : List Instr) :
    h.execs (x :: xs) = (h.advance x).execs xs := rfl

theorem execs_append (xs ys : List Instr) : h.execs (xs ++ ys) = (h.execs xs).execs ys :=
  List.foldl_append

theorem exec_store_zero {o : StoreOp} {r : BitVec 5} {hi : BitVec 7} {lo : BitVec 5}
    (hfit : Fits ((hi ++ lo).signExtend 64) o.bytes) :
    h.exec (.store o 0 r hi lo) = { h.skip with
      memory := h.memory.store (((hi ++ lo).signExtend 64).setWidth 15) o.bytes
        (h.regs.val r) } := by
  have haddr : h.regs.val 0 + (hi ++ lo).signExtend 64 = (hi ++ lo).signExtend 64 := by
    rw [h.regs.zero]
    exact BitVec.zero_add _
  change h.store o (h.regs.val 0 + (hi ++ lo).signExtend 64) (h.regs.val r) = _
  rw [haddr, Hart.store, if_pos hfit]

/-- A CSR that is only read. -/
theorem exec_csr_read {o : CsrOp} {d r : BitVec 5} {a : BitVec 12} {c : Csr}
    (hc : pick Csr.all Csr.addr a = some c) (hr : o.writes r = false) :
    h.exec (.csr o d r a) = h.compute d (h.csr c) := by
  change h.accessCsr o d r a = _
  unfold accessCsr
  rw [hc]
  dsimp only
  rw [hr, if_neg Bool.false_ne_true]

/-- The trap unit is as it was. -/
structure SameUnit (h h' : Hart) : Prop where
  mode : h'.mode = h.mode
  mpp : h'.mpp = h.mpp
  mpie : h'.mpie = h.mpie
  mie : h'.mie = h.mie
  mtvec : h'.mtvec = h.mtvec
  mepc : h'.mepc = h.mepc
  mcause : h'.mcause = h.mcause

theorem SameUnit.refl (h : Hart) : SameUnit h h := ⟨rfl, rfl, rfl, rfl, rfl, rfl, rfl⟩

theorem SameUnit.trans {h' h'' : Hart} (hl : SameUnit h h') (hr : SameUnit h' h'') :
    SameUnit h h'' where
  mode := hr.mode.trans hl.mode
  mpp := hr.mpp.trans hl.mpp
  mpie := hr.mpie.trans hl.mpie
  mie := hr.mie.trans hl.mie
  mtvec := hr.mtvec.trans hl.mtvec
  mepc := hr.mepc.trans hl.mepc
  mcause := hr.mcause.trans hl.mcause

/-- **A plain instruction** goes on to the next one, and leaves the trap unit alone. -/
theorem advance_plain {x : Instr} (hx : x.plain = true) :
    (h.advance x).pc = h.pc.next ∧ SameUnit h (h.advance x) := by
  cases x with
  | lui | auipc | opImm | addiw | op | fence => exact ⟨rfl, rfl, rfl, rfl, rfl, rfl, rfl, rfl⟩
  | store o r r' hi lo =>
      obtain ⟨hr, hfit⟩ := Bool.and_eq_true_iff.mp hx
      obtain rfl := eq_of_beq hr
      rw [advance, exec_store_zero (of_decide_eq_true hfit)]
      exact ⟨rfl, rfl, rfl, rfl, rfl, rfl, rfl, rfl⟩
  | csr o d r a =>
      obtain ⟨hr, ha⟩ := Bool.and_eq_true_iff.mp hx
      obtain ⟨c, hc⟩ := Option.isSome_iff_exists.mp ha
      rw [advance, exec_csr_read hc ((Bool.not_eq_true' _).mp hr)]
      exact ⟨rfl, rfl, rfl, rfl, rfl, rfl, rfl, rfl⟩
  | jal | jalr | branch | load | shiftImm | shiftImmW | opW | ecall | ebreak | mret =>
      exact absurd hx Bool.false_ne_true

/-- **Straight-line code** runs to its end. -/
theorem execs_plain (xs : List Instr) (hx : xs.all Instr.plain = true) :
    (h.execs xs).pc = h.pc.plus xs.length ∧ SameUnit h (h.execs xs) := by
  induction xs generalizing h with
  | nil => exact ⟨(CodeAddr.plus_zero _).symm, SameUnit.refl h⟩
  | cons x xs ih =>
      obtain ⟨hplain, hrest⟩ := Bool.and_eq_true_iff.mp (List.all_cons ▸ hx)
      obtain ⟨hpc, hunit⟩ := advance_plain (h := h) hplain
      obtain ⟨hpc', hunit'⟩ := ih (h := h.advance x) hrest
      have hnext := CodeAddr.next_plus h.pc 0
      rw [CodeAddr.plus_zero, Nat.zero_add] at hnext
      refine ⟨?_, hunit.trans hunit'⟩
      rw [execs_cons, hpc', hpc, hnext, CodeAddr.plus_plus, Nat.add_comm 1, List.length_cons]

/-! ## What the instructions do -/

@[simp] theorem advance_li (d : BitVec 5) (imm : BitVec 12) :
    h.advance (li d imm) =
      { h.compute d (imm.signExtend 64) with cycles := h.cycles + 1 } := by
  have hzero : h.exec (li d imm) = h.compute d (h.regs.val 0 + imm.signExtend 64) := rfl
  rw [advance, hzero, h.regs.zero, show (0 : BitVec 64) + imm.signExtend 64 = imm.signExtend 64
    from BitVec.zero_add _]

@[simp] theorem advance_sdZero {r : BitVec 5} {imm : BitVec 12}
    (hfit : Fits (imm.signExtend 64) 8) :
    h.advance (sdZero r imm) = { h.skip with
      memory := h.memory.store ((imm.signExtend 64).setWidth 15) 8 (h.regs.val r)
      cycles := h.cycles + 1 } := by
  rw [advance, sdZero, exec_store_zero (by rw [sdZero_imm]; exact hfit), sdZero_imm]
  rfl

/-- The memory after words have been saved, each at the place of its own. -/
theorem execs_saves (rs : List (BitVec 5 × BitVec 12)) {words : BitVec 12 → BitVec 64}
    (hfit : ∀ p ∈ rs, (p.2.signExtend 64).extractLsb' 0 3 = 0)
    (hm : h.memory = ByteMem.ofWords words) :
    (h.execs (rs.map fun p => sdZero p.1 p.2)).regs = h.regs ∧
      (h.execs (rs.map fun p => sdZero p.1 p.2)).memory = ByteMem.ofWords (rs.foldl
        (fun w p => Function.update w ((p.2.signExtend 64).extractLsb' 3 12) (h.regs.val p.1))
        words) := by
  induction rs generalizing h words with
  | nil => exact ⟨rfl, hm⟩
  | cons p rs ih =>
      have hlane := hfit p List.mem_cons_self
      have hword : ((p.2.signExtend 64).setWidth 15).extractLsb' 0 3 = 0 := by
        rw [BitVec.extractLsb'_setWidth_of_le (by decide)]
        exact hlane
      have hstore : (h.advance (sdZero p.1 p.2)).memory = ByteMem.ofWords (Function.update words
          ((p.2.signExtend 64).extractLsb' 3 12) (h.regs.val p.1)) := by
        rw [advance_sdZero (by unfold Fits; rw [hlane]; decide)]
        change h.memory.store _ 8 _ = _
        rw [hm, ByteMem.ofWords_store_word hword, BitVec.extractLsb'_setWidth_of_le (by decide)]
      have hregs : (h.advance (sdZero p.1 p.2)).regs = h.regs := by
        rw [advance_sdZero (by unfold Fits; rw [hlane]; decide)]
        rfl
      obtain ⟨hr, hw⟩ := ih (fun q hq => hfit q (List.mem_cons_of_mem p hq)) hstore
      rw [hregs] at hr hw
      exact ⟨hr, hw⟩

/-- `csrrsi zero, mstatus, 8` enables exceptions and leaves the rest of `mstatus` alone. -/
theorem advance_enable : h.advance (.csr .csrrsi 0 8 Csr.mstatus.addr) =
    { h.skip with mie := true, cycles := h.cycles + 1 } := by
  have hmpp : ∀ (m : BitVec 2) (a b : Bool),
      (statusWord m a b ||| (8#5).setWidth 64).extractLsb' 11 2 = m := by decide
  have hmpie : ∀ (m : BitVec 2) (a b : Bool),
      (statusWord m a b ||| (8#5).setWidth 64).getLsbD 7 = a := by decide
  have hmie : ∀ (m : BitVec 2) (a b : Bool),
      (statusWord m a b ||| (8#5).setWidth 64).getLsbD 3 = true := by decide
  have hwrite : h.exec (.csr .csrrsi 0 8 Csr.mstatus.addr) =
      (h.compute 0 h.mstatus).setCsr (h.mstatus ||| (8#5).setWidth 64) .mstatus := rfl
  rw [advance, hwrite, setCsr, mstatus, hmpp, hmpie, hmie, Privilege.ofBits_bits, compute,
    Regs.write_zero]
  rfl

/-- `csrw mtvec, rs`. -/
theorem advance_csrwMtvec (r : BitVec 5) : h.advance (.csr .csrrw 0 r Csr.mtvec.addr) =
    { h.skip with mtvec := .ofWord (h.regs.val r), cycles := h.cycles + 1 } := by
  have hwrite : h.exec (.csr .csrrw 0 r Csr.mtvec.addr) =
      (h.compute 0 h.mtvec.val).setCsr (h.regs.val r) .mtvec := rfl
  rw [advance, hwrite, setCsr, compute, Regs.write_zero]
  rfl

/-- A jump inside the code. -/
theorem advance_jal {d : BitVec 5} {x : BitVec 21} {a : CodeAddr} (hx : x.getLsbD 0 = false)
    (ha : h.pc.val + x.signExtend 64 = a.val) :
    h.advance (jal d x) =
      { h with pc := a, regs := h.regs.write d h.pc.next.val, cycles := h.cycles + 1 } := by
  have hjump : h.exec (jal d x) = h.jump (h.pc.val + x.signExtend 64) (some d) := by
    rw [← jalOffset_jal hx]
    rfl
  rw [advance, hjump, ha, jump, CodeAddr.ofWord_val]

/-- A branch. -/
theorem advance_branchBy {o : BranchOp} {r r' : BitVec 5} {x : BitVec 13} {a : CodeAddr}
    (hx : x.getLsbD 0 = false) (ha : h.pc.val + x.signExtend 64 = a.val) :
    h.advance (branchBy o r r' x) = { h with
      pc := if o.taken (h.regs.val r) (h.regs.val r') then a else h.pc.next
      cycles := h.cycles + 1 } := by
  have hjump : h.exec (branchBy o r r' x) = h.jump
      (if o.taken (h.regs.val r) (h.regs.val r') then a.val else h.pc.next.val) none := by
    rw [← ha, ← branchOffset_branchBy hx]
    rfl
  rw [advance, hjump]
  split_ifs
  · rw [jump, CodeAddr.ofWord_val]
  · rw [jump, CodeAddr.ofWord_val]

end Hart

end Isa

end PassiFlo
