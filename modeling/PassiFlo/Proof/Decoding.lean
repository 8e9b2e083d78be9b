import PassiFlo.Rtl.Decoder

/-!
# What the main decoder can say

`maindecOutput` is a long priority chain, but the control words it can produce are
few, and each belongs to one opcode. `decodeTable` lists them. A property of the
decoder that only speaks of the opcode and the control word is then a property of
thirty rows, and `maindec_rule` turns the one into the other.
-/

namespace PassiFlo

/-- Every control word of the decoder with the opcode that produces it. -/
def decodeTable : List (BitVec 7 × BitVec 23) :=
  [(0b1100011#7, 0b000_000_0_00_000_00_0_000_001_01#23),
   (0b1100011#7, 0b000_000_0_00_000_00_0_000_011_01#23),
   (0b1100011#7, 0b000_000_0_00_000_00_0_000_101_01#23),
   (0b1100011#7, 0b000_000_0_00_000_00_0_000_100_01#23),
   (0b1100011#7, 0b000_000_0_00_000_00_0_000_110_01#23),
   (0b1100011#7, 0b000_000_0_00_000_00_0_000_010_01#23),
   (0b1100011#7, 0b000_000_0_00_000_00_0_000_000_01#23),
   (0b0110011#7, 0b000_000_0_00_001_00_0_000_000_10#23),
   (0b0111011#7, 0b000_000_1_00_001_00_0_000_000_10#23),
   (0b0010011#7, 0b000_000_0_00_101_00_0_000_000_11#23),
   (0b0011011#7, 0b000_000_1_00_101_00_0_000_000_11#23),
   (0b0000011#7, 0b000_000_0_00_111_11_0_000_000_00#23),
   (0b0000011#7, 0b000_000_0_00_111_01_0_000_000_00#23),
   (0b0000011#7, 0b000_000_0_00_111_11_0_001_000_00#23),
   (0b0000011#7, 0b000_000_0_00_111_01_0_001_000_00#23),
   (0b0000011#7, 0b000_000_0_00_111_11_0_011_000_00#23),
   (0b0000011#7, 0b000_000_0_00_111_01_0_011_000_00#23),
   (0b0000011#7, 0b000_000_0_00_111_11_0_111_000_00#23),
   (0b0100011#7, 0b000_000_0_00_100_00_1_000_000_00#23),
   (0b0100011#7, 0b000_000_0_00_100_00_1_001_000_00#23),
   (0b0100011#7, 0b000_000_0_00_100_00_1_011_000_00#23),
   (0b0100011#7, 0b000_000_0_00_100_00_1_111_000_00#23),
   (0b0110111#7, 0b000_000_0_01_101_00_0_000_000_00#23),
   (0b0010111#7, 0b000_000_0_10_101_00_0_000_000_00#23),
   (0b1101111#7, 0b000_000_0_00_001_00_0_000_111_01#23),
   (0b1100111#7, 0b000_000_0_00_101_00_0_000_111_01#23),
   (0b1110011#7, 0b000_001_0_00_000_00_0_000_000_00#23),
   (0b1110011#7, 0b000_010_0_00_000_00_0_000_000_00#23),
   (0b1110011#7, 0b100_000_0_00_000_00_0_000_000_00#23),
   (0b1110011#7, 0b000_100_0_00_000_00_0_000_000_00#23),
   (0b1110011#7, 0b011_000_0_00_001_00_0_000_000_10#23),
   (0b1110011#7, 0b011_000_0_00_101_00_0_000_000_10#23),
   (0b0001111#7, 0b000_000_0_00_000_00_0_000_000_00#23)]

/-- The opcodes the decoder knows. -/
def opcodes : List (BitVec 7) :=
  [0b1100011#7, 0b0110011#7, 0b0111011#7, 0b0010011#7, 0b0011011#7, 0b0000011#7, 0b0100011#7,
   0b0110111#7, 0b0010111#7, 0b1101111#7, 0b1100111#7, 0b1110011#7, 0b0001111#7]

/-- The control word of an undefined instruction. -/
def illegalOutput : BitVec 23 := 0b000_100_0_00_000_00_0_000_000_00#23

theorem funct3_cases : ∀ f3 : BitVec 3, f3 = 0b000#3 ∨ f3 = 0b001#3 ∨ f3 = 0b010#3 ∨
    f3 = 0b011#3 ∨ f3 = 0b100#3 ∨ f3 = 0b101#3 ∨ f3 = 0b110#3 ∨ f3 = 0b111#3 := by
  decide

theorem branchOutput_mem (f3 : BitVec 3) : (0b1100011#7, branchOutput f3) ∈ decodeTable := by
  revert f3; decide

theorem loadOutput_mem (f3 : BitVec 3) : (0b0000011#7, loadOutput f3) ∈ decodeTable := by
  revert f3; decide

theorem storeOutput_mem (f3 : BitVec 3) : (0b0100011#7, storeOutput f3) ∈ decodeTable := by
  revert f3; decide

theorem systemOutput_mem (f3 : BitVec 3) (f12 : BitVec 12) :
    (0b1110011#7, systemOutput f3 f12) ∈ decodeTable := by
  unfold systemOutput
  repeat' split
  all_goals decide

theorem maindecOutput_mem {op : BitVec 7} (hop : op ∈ opcodes) (f3 : BitVec 3) (f12 : BitVec 12) :
    (op, maindecOutput false op f3 f12) ∈ decodeTable := by
  simp only [opcodes, List.mem_cons, List.not_mem_nil, or_false] at hop
  rcases hop with rfl | rfl | rfl | rfl | rfl | rfl | rfl | rfl | rfl | rfl | rfl | rfl | rfl
  case inl => exact branchOutput_mem f3
  case inr.inr.inr.inr.inr.inl => exact loadOutput_mem f3
  case inr.inr.inr.inr.inr.inr.inl => exact storeOutput_mem f3
  case inr.inr.inr.inr.inr.inr.inr.inr.inr.inr.inr.inl => exact systemOutput_mem f3 f12
  all_goals exact of_decide_eq_true rfl

theorem maindecOutput_illegal {op : BitVec 7} (hop : op ∉ opcodes) (f3 : BitVec 3)
    (f12 : BitVec 12) : maindecOutput false op f3 f12 = illegalOutput := by
  simp only [opcodes, List.mem_cons, List.not_mem_nil, or_false, not_or] at hop
  obtain ⟨h1, h2, h3, h4, h5, h6, h7, h8, h9, h10, h11, h12, h13⟩ := hop
  rw [maindecOutput, if_neg Bool.false_ne_true, if_neg h1, if_neg h2, if_neg h3, if_neg h4,
    if_neg h5, if_neg h6, if_neg h7, if_neg h8, if_neg h9, if_neg h10, if_neg h11, if_neg h12,
    if_neg h13, illegalOutput]

/-- **The decoder rule.** What holds of every row holds of the decoder. -/
theorem maindec_rule {P : BitVec 7 → MainDec → Prop} [∀ op d, Decidable (P op d)]
    (hrow : decodeTable.all (fun p => decide (P p.1 (MainDec.ofBits p.2))) = true)
    (hill : ∀ op ∉ opcodes, P op (MainDec.ofBits illegalOutput))
    (op : BitVec 7) (f3 : BitVec 3) (f12 : BitVec 12) : P op (maindec false op f3 f12) := by
  unfold maindec
  by_cases hop : op ∈ opcodes
  · exact of_decide_eq_true (List.all_eq_true.mp hrow _ (maindecOutput_mem hop f3 f12))
  · rw [maindecOutput_illegal hop]
    exact hill op hop

/-! ## Rows of the table, by what they do -/

/-- The control word of a load. -/
def loadDec (signedRead : Bool) (memWidth : BitVec 3) : MainDec where
  trapReturn := false
  aluSelect := false
  csrWriteEnable := false
  exceptSignal := 0
  wArith := false
  regSel := 0
  aluSrc := true
  memtoReg := true
  regWrite := true
  memRead := BitVec.ofBool signedRead ++ 1#1
  memWrite := false
  memWidth := memWidth
  branch := 0
  aluOp := 0

theorem loadDec_signed (b : Bool) (width : BitVec 3) : (loadDec b width).memRead.getLsbD 1 = b := by
  have h : ∀ b, (BitVec.ofBool b ++ 1#1).getLsbD 1 = b := by decide
  exact h b

theorem loadDec_read (b : Bool) (width : BitVec 3) :
    (loadDec b width).memRead.getLsbD 0 = true := by
  have h : ∀ b, (BitVec.ofBool b ++ 1#1).getLsbD 0 = true := by decide
  exact h b

/-- The control word of a store. -/
def storeDec (memWidth : BitVec 3) : MainDec :=
  { loadDec false memWidth with
    memtoReg := false, regWrite := false, memRead := 0, memWrite := true }

/-- The odd 000/001/011/111 width code of `maindec`. -/
def widthCode : BitVec 2 → BitVec 3
  | 0b00#2 => 0b000#3
  | 0b01#2 => 0b001#3
  | 0b10#2 => 0b011#3
  | _ => 0b111#3

/-- Loads sign extend unless `funct3[2]` is set; the unassigned 111 is decoded as `ld`. -/
def loadSigned (f3 : BitVec 3) : Bool := !f3.getLsbD 2 || f3 == 0b111#3

/-- The size field of a load. -/
def loadSize (f3 : BitVec 3) : BitVec 2 := f3.extractLsb' 0 2

/-- The size field of a store; a store with `funct3[2]` set is decoded as `sd`. -/
def storeSize (f3 : BitVec 3) : BitVec 2 := if f3.getLsbD 2 then 0b11#2 else f3.extractLsb' 0 2

theorem maindec_load (f3 : BitVec 3) (f12 : BitVec 12) :
    maindec false 0b0000011#7 f3 f12 = loadDec (loadSigned f3) (widthCode (loadSize f3)) := by
  change MainDec.ofBits (loadOutput f3) = _
  revert f3; decide +kernel

theorem maindec_store (f3 : BitVec 3) (f12 : BitVec 12) :
    maindec false 0b0100011#7 f3 f12 = storeDec (widthCode (storeSize f3)) := by
  change MainDec.ofBits (storeOutput f3) = _
  revert f3; decide +kernel

/-- The control word of a CSR instruction. -/
def csrRow (immediate : Bool) : MainDec :=
  { loadDec false 0 with
    aluSelect := true, csrWriteEnable := true, aluSrc := immediate, memtoReg := false, memRead := 0
    aluOp := 0b10#2 }

theorem maindec_csr {f3 : BitVec 3} (h : f3.extractLsb' 0 2 ≠ 0) (f12 : BitVec 12) :
    maindec false 0b1110011#7 f3 f12 = csrRow (f3.getLsbD 2) := by
  change MainDec.ofBits (systemOutput f3 f12) = _
  have h0 : f3 ≠ 0b000#3 := by rintro rfl; exact h rfl
  rw [systemOutput, if_neg h0]
  clear h0
  revert f3; decide +kernel

/-- The instruction leaves memory, the CSRs and the trap unit alone. -/
structure MainDec.Direct (d : MainDec) : Prop where
  exceptSignal : d.exceptSignal = 0
  trapReturn : d.trapReturn = false
  csrWriteEnable : d.csrWriteEnable = false
  memtoReg : d.memtoReg = false
  memRead : d.memRead.getLsbD 0 = false
  memWrite : d.memWrite = false

/-- The control word of a transfer. -/
def transferRow (aluSrc regWrite : Bool) (branch : BitVec 3) : MainDec :=
  { loadDec false 0 with
    aluSrc := aluSrc, memtoReg := false, regWrite := regWrite, memRead := 0, branch := branch
    aluOp := 0b01#2 }

theorem transferRow_direct (aluSrc regWrite : Bool) (branch : BitVec 3) :
    (transferRow aluSrc regWrite branch).Direct :=
  ⟨rfl, rfl, rfl, rfl, BitVec.getLsbD_zero, rfl⟩

theorem maindec_jal (f3 : BitVec 3) (f12 : BitVec 12) :
    maindec false 0b1101111#7 f3 f12 = transferRow false true 0b111#3 := by
  change MainDec.ofBits 0b000_000_0_00_001_00_0_000_111_01#23 = _
  decide

theorem maindec_jalr (f3 : BitVec 3) (f12 : BitVec 12) :
    maindec false 0b1100111#7 f3 f12 = transferRow true true 0b111#3 := by
  change MainDec.ofBits 0b000_000_0_00_101_00_0_000_111_01#23 = _
  decide

/-- The control word of a computational instruction. -/
def computeRow (wArith : Bool) (regSel : BitVec 2) (aluSrc : Bool) (aluOp : BitVec 2) : MainDec :=
  { transferRow aluSrc true 0 with wArith := wArith, regSel := regSel, aluOp := aluOp }

theorem computeRow_direct (wArith : Bool) (regSel : BitVec 2) (aluSrc : Bool) (aluOp : BitVec 2) :
    (computeRow wArith regSel aluSrc aluOp).Direct :=
  ⟨rfl, rfl, rfl, rfl, BitVec.getLsbD_zero, rfl⟩

/-- The opcodes of the computational instructions, each with its control word. -/
theorem maindec_compute (f3 : BitVec 3) (f12 : BitVec 12) :
    maindec false 0b0110011#7 f3 f12 = computeRow false 0 false 0b10#2 ∧
      maindec false 0b0111011#7 f3 f12 = computeRow true 0 false 0b10#2 ∧
      maindec false 0b0010011#7 f3 f12 = computeRow false 0 true 0b11#2 ∧
      maindec false 0b0011011#7 f3 f12 = computeRow true 0 true 0b11#2 ∧
      maindec false 0b0110111#7 f3 f12 = computeRow false 0b01#2 true 0 ∧
      maindec false 0b0010111#7 f3 f12 = computeRow false 0b10#2 true 0 := by
  refine ⟨?_, ?_, ?_, ?_, ?_, ?_⟩
  · change MainDec.ofBits 0b000_000_0_00_001_00_0_000_000_10#23 = _; decide
  · change MainDec.ofBits 0b000_000_1_00_001_00_0_000_000_10#23 = _; decide
  · change MainDec.ofBits 0b000_000_0_00_101_00_0_000_000_11#23 = _; decide
  · change MainDec.ofBits 0b000_000_1_00_101_00_0_000_000_11#23 = _; decide
  · change MainDec.ofBits 0b000_000_0_01_101_00_0_000_000_00#23 = _; decide
  · change MainDec.ofBits 0b000_000_0_10_101_00_0_000_000_00#23 = _; decide

section Rules

variable {op : BitVec 7} {f3 : BitVec 3} {f12 : BitVec 12}

/-- Only loads read the memory. -/
theorem maindec_memRead (h : (maindec false op f3 f12).memRead.getLsbD 0 = true) :
    op = 0b0000011#7 := by
  revert h
  exact maindec_rule (P := fun op d => d.memRead.getLsbD 0 = true → op = 0b0000011#7)
    (by decide +kernel) (fun _ _ h => absurd h (by decide)) op f3 f12

/-- Only stores write the memory. -/
theorem maindec_memWrite (h : (maindec false op f3 f12).memWrite = true) : op = 0b0100011#7 := by
  revert h
  exact maindec_rule (P := fun op d => d.memWrite = true → op = 0b0100011#7)
    (by decide +kernel) (fun _ _ h => absurd h (by decide)) op f3 f12

/-- Only loads write back what the memory shows. -/
theorem maindec_memtoReg (h : (maindec false op f3 f12).memtoReg = true) : op = 0b0000011#7 := by
  revert h
  exact maindec_rule (P := fun op d => d.memtoReg = true → op = 0b0000011#7)
    (by decide +kernel) (fun _ _ h => absurd h (by decide)) op f3 f12

/-- Nothing is written, read from memory, branched to or returned from. -/
structure MainDec.Inert (d : MainDec) : Prop where
  regWrite : d.regWrite = false
  memRead : d.memRead.getLsbD 0 = false
  memWrite : d.memWrite = false
  csrWriteEnable : d.csrWriteEnable = false
  branch : d.branch = 0
  trapReturn : d.trapReturn = false

instance (d : MainDec) : Decidable d.Inert :=
  decidable_of_iff (d.regWrite = false ∧ d.memRead.getLsbD 0 = false ∧ d.memWrite = false ∧
    d.csrWriteEnable = false ∧ d.branch = 0 ∧ d.trapReturn = false)
    ⟨fun ⟨h1, h2, h3, h4, h5, h6⟩ => ⟨h1, h2, h3, h4, h5, h6⟩,
      fun h => ⟨h.regWrite, h.memRead, h.memWrite, h.csrWriteEnable, h.branch, h.trapReturn⟩⟩

/-- **An instruction the decoder raises an exception for does nothing else.** -/
theorem maindec_except_inert (h : (maindec false op f3 f12).exceptSignal ≠ 0) :
    (maindec false op f3 f12).Inert := by
  revert h
  exact maindec_rule (P := fun _ d => d.exceptSignal ≠ 0 → d.Inert)
    (by decide +kernel) (fun _ _ _ => by decide) op f3 f12

/-- A branch or jump raises no exception, touches no memory and is no trap return. -/
theorem maindec_branch (h : (maindec false op f3 f12).branch ≠ 0) :
    (op = 0b1100011#7 ∨ op = 0b1101111#7 ∨ op = 0b1100111#7) ∧
      (maindec false op f3 f12).exceptSignal = 0 ∧
      (maindec false op f3 f12).memRead.getLsbD 0 = false ∧
      (maindec false op f3 f12).memWrite = false ∧
      (maindec false op f3 f12).trapReturn = false ∧
      (maindec false op f3 f12).regSel = 0#2 ∧
      ((maindec false op f3 f12).aluSrc = true ↔ op = 0b1100111#7) := by
  revert h
  exact maindec_rule (P := fun op d => d.branch ≠ 0 →
      (op = 0b1100011#7 ∨ op = 0b1101111#7 ∨ op = 0b1100111#7) ∧ d.exceptSignal = 0 ∧
      d.memRead.getLsbD 0 = false ∧ d.memWrite = false ∧ d.trapReturn = false ∧ d.regSel = 0#2 ∧
      (d.aluSrc = true ↔ op = 0b1100111#7))
    (by decide +kernel) (fun _ _ h => absurd rfl h) op f3 f12

/-- The trap return is `mret` and nothing else. -/
theorem maindec_trapReturn :
    (maindec false op f3 f12).trapReturn = true ↔
      op = 0b1110011#7 ∧ f3 = 0b000#3 ∧ f12 = 0x302#12 := by
  constructor
  · intro h
    have hop : op = 0b1110011#7 := by
      revert h
      exact maindec_rule (P := fun op d => d.trapReturn = true → op = 0b1110011#7)
        (by decide +kernel) (fun _ _ h => absurd h (by decide)) op f3 f12
    subst hop
    change (MainDec.ofBits (systemOutput f3 f12)).trapReturn = true at h
    unfold systemOutput at h
    repeat' split at h
    case isFalse.isFalse.isTrue hf3 _ _ hf12 => exact ⟨rfl, hf3, hf12⟩
    all_goals exact absurd h (by decide)
  · rintro ⟨rfl, rfl, rfl⟩; rfl

theorem funct3_low_zero : ∀ f3 : BitVec 3,
    f3.extractLsb' 0 2 = 0 → f3 = 0b000#3 ∨ f3 = 0b100#3 := by
  decide

/-- CSR instructions, and they alone, write CSRs. -/
theorem maindec_csrWriteEnable :
    (maindec false op f3 f12).csrWriteEnable = true ↔
      op = 0b1110011#7 ∧ f3.extractLsb' 0 2 ≠ 0 := by
  constructor
  · intro h
    have hop : op = 0b1110011#7 := by
      revert h
      exact maindec_rule (P := fun op d => d.csrWriteEnable = true → op = 0b1110011#7)
        (by decide +kernel) (fun _ _ h => absurd h (by decide)) op f3 f12
    subst hop
    refine ⟨rfl, fun hf3 => ?_⟩
    change (MainDec.ofBits (systemOutput f3 f12)).csrWriteEnable = true at h
    rcases funct3_low_zero f3 hf3 with rfl | rfl
    · rw [systemOutput, if_pos rfl] at h
      repeat' split at h
      all_goals exact absurd h (by decide)
    · change (MainDec.ofBits illegalOutput).csrWriteEnable = true at h
      exact absurd h (by decide)
  · intro hcsr
    obtain ⟨rfl, hf3⟩ := hcsr
    rw [maindec_csr hf3]
    rfl

end Rules

end PassiFlo
