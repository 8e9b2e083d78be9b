import PassiFlo.Isa.Instr
import PassiFlo.Isa.Encoding

/-!
# Reading instructions

The inverse of the encoding: which instruction a word is, by opcode and function codes.
Nothing is decoded that does not encode back to the same word, so the words that decode
are exactly the legal ones.
-/

namespace PassiFlo

namespace Isa

/-! ## Codes -/

section Pick

variable {α β : Type*} [DecidableEq β] {all : List α} {code : α → β}

/-- The member of a family with the given code. -/
def pick (all : List α) (code : α → β) (c : β) : Option α := all.find? fun a => code a == c

theorem code_of_pick {c : β} {a : α} (h : pick all code c = some a) : code a = c :=
  beq_iff_eq.mp (List.find?_some (p := fun a => code a == c) h)

/-- Codes that tell the members of a family apart can be read back. -/
theorem pick_code (hall : ∀ a, a ∈ all) (hinj : Function.Injective code) (a : α) :
    pick all code (code a) = some a := by
  cases h : pick all code (code a) with
  | none =>
      have hne := List.find?_eq_none.mp h a (hall a)
      exact absurd (beq_self_eq_true (code a)) hne
  | some b => rw [hinj (code_of_pick h)]

theorem pick_eq_none (hall : ∀ a, a ∈ all) {c : β} : pick all code c = none ↔ ∀ a, code a ≠ c := by
  rw [pick, List.find?_eq_none]
  exact ⟨fun h a hc => h a (hall a) (beq_iff_eq.mpr hc), fun h a _ hc => h a (beq_iff_eq.mp hc)⟩

end Pick

def BranchOp.all : List BranchOp := [beq, bne, blt, bge, bltu, bgeu]

def LoadOp.forms : List LoadOp := [lb, lh, lw, ld, lbu, lhu, lwu]

def StoreOp.all : List StoreOp := [sb, sh, sw, sd]

def ImmOp.all : List ImmOp := [addi, slti, sltiu, xori, ori, andi]

def ShiftOp.all : List ShiftOp := [sll, srl, sra]

def RegOp.all : List RegOp := [add, sub, sll, slt, sltu, xor, srl, sra, or, and]

def RegOpW.all : List RegOpW := [addw, subw, sllw, srlw, sraw]

def CsrOp.all : List CsrOp := [csrrw, csrrs, csrrc, csrrwi, csrrsi, csrrci]

def ShiftOp.codes (o : ShiftOp) : BitVec 3 × BitVec 6 := (o.funct3, o.funct6)

/-- The word shifts have a zero where the 64-bit ones have the top bit of the amount. -/
def ShiftOp.codesW (o : ShiftOp) : BitVec 3 × BitVec 7 := (o.funct3, o.funct6 ++ 0#1)

def RegOp.codes (o : RegOp) : BitVec 3 × BitVec 7 := (o.funct3, o.funct7)

def RegOpW.codes (o : RegOpW) : BitVec 3 × BitVec 7 := (o.funct3, o.funct7)

/-! ## Decoding -/

/-- The register-immediate instruction of a word: a shift where `funct3` says so. -/
def Instr.decodeImm (w : BitVec 32) : Option Instr :=
  match pick ImmOp.all ImmOp.funct3 (funct3 w) with
  | some o => some (opImm o (rd w) (rs1 w) (funct12 w))
  | none => (pick ShiftOp.all ShiftOp.codes (funct3 w, funct6 (funct12 w))).map fun o =>
      shiftImm o (rd w) (rs1 w) ((funct12 w).extractLsb' 0 6)

/-- The same on words. -/
def Instr.decodeImmW (w : BitVec 32) : Option Instr :=
  if funct3 w = 0b000#3 then some (addiw (rd w) (rs1 w) (funct12 w))
  else (pick ShiftOp.all ShiftOp.codesW (funct3 w, funct7 (funct12 w))).map fun o =>
    shiftImmW o (rd w) (rs1 w) ((funct12 w).extractLsb' 0 5)

/-- The SYSTEM instruction of a word. -/
def Instr.decodeSystem (w : BitVec 32) : Option Instr :=
  match pick CsrOp.all CsrOp.funct3 (funct3 w) with
  | some o => some (csr o (rd w) (rs1 w) (funct12 w))
  | none => [ecall, ebreak, mret].find? fun x => x.encode == w

/-- The instruction a word encodes. -/
def Instr.decode (w : BitVec 32) : Option Instr :=
  if opcode w = 0b0110111#7 then some (lui (rd w) (w.extractLsb' 12 20))
  else if opcode w = 0b0010111#7 then some (auipc (rd w) (w.extractLsb' 12 20))
  else if opcode w = 0b1101111#7 then some (jal (rd w) (w.extractLsb' 12 20))
  else if opcode w = 0b1100111#7 then
    if funct3 w = 0b000#3 then some (jalr (rd w) (rs1 w) (funct12 w)) else none
  else if opcode w = 0b1100011#7 then
    (pick BranchOp.all BranchOp.funct3 (funct3 w)).map fun o =>
      branch o (rs1 w) (rs2 w) (funct7 (funct12 w)) (rd w)
  else if opcode w = 0b0000011#7 then
    (pick LoadOp.forms LoadOp.funct3 (funct3 w)).map fun o => load o (rd w) (rs1 w) (funct12 w)
  else if opcode w = 0b0100011#7 then
    (pick StoreOp.all StoreOp.funct3 (funct3 w)).map fun o =>
      store o (rs1 w) (rs2 w) (funct7 (funct12 w)) (rd w)
  else if opcode w = 0b0010011#7 then decodeImm w
  else if opcode w = 0b0011011#7 then decodeImmW w
  else if opcode w = 0b0110011#7 then
    (pick RegOp.all RegOp.codes (funct3 w, funct7 (funct12 w))).map fun o =>
      op o (rd w) (rs1 w) (rs2 w)
  else if opcode w = 0b0111011#7 then
    (pick RegOpW.all RegOpW.codes (funct3 w, funct7 (funct12 w))).map fun o =>
      opW o (rd w) (rs1 w) (rs2 w)
  else if opcode w = 0b0001111#7 then
    if funct3 w = 0b000#3 then some (fence (rd w) (rs1 w) (funct12 w)) else none
  else if opcode w = 0b1110011#7 then decodeSystem w
  else none

/-! ## Round trip -/

theorem BranchOp.pick_funct3 (o : BranchOp) : pick all funct3 o.funct3 = some o :=
  pick_code (by decide) (by decide) o

theorem LoadOp.pick_funct3 (o : LoadOp) : pick forms funct3 o.funct3 = some o :=
  pick_code (by decide) (by decide) o

theorem StoreOp.pick_funct3 (o : StoreOp) : pick all funct3 o.funct3 = some o :=
  pick_code (by decide) (by decide) o

theorem ImmOp.pick_funct3 (o : ImmOp) : pick all funct3 o.funct3 = some o :=
  pick_code (by decide) (by decide) o

theorem ShiftOp.pick_codes (o : ShiftOp) : pick all codes (o.funct3, o.funct6) = some o :=
  pick_code (by decide) (by decide) o

theorem ShiftOp.pick_codesW (o : ShiftOp) : pick all codesW (o.funct3, o.funct6 ++ 0#1) = some o :=
  pick_code (by decide) (by decide) o

theorem RegOp.pick_codes (o : RegOp) : pick all codes (o.funct3, o.funct7) = some o :=
  pick_code (by decide) (by decide) o

theorem RegOpW.pick_codes (o : RegOpW) : pick all codes (o.funct3, o.funct7) = some o :=
  pick_code (by decide) (by decide) o

theorem CsrOp.pick_funct3 (o : CsrOp) : pick all funct3 o.funct3 = some o :=
  pick_code (by decide) (by decide) o

/-- No shift has the `funct3` of another immediate operation. -/
theorem ShiftOp.pick_imm (o : ShiftOp) : pick ImmOp.all ImmOp.funct3 o.funct3 = none := by
  cases o <;> decide

theorem ShiftOp.funct3_ne (o : ShiftOp) : o.funct3 ≠ 0b000#3 := by
  cases o <;> decide

/-- **What is encoded is decoded.** -/
theorem Instr.decode_encode (x : Instr) : decode x.encode = some x := by
  cases x with
  | lui d imm | auipc d imm | jal d imm =>
      simp only [decode, encode, wordU, opcode_word, rd_word, BitVec.reduceEq, if_true, if_false,
        Option.some.injEq]
      rw [← wordU, slice12_wordU]
  | branch o a b hi lo =>
      simp only [decode, encode, opcode_word, funct3_word, rs1_word, rs2_word, funct12_word,
        rd_word, BitVec.reduceEq, if_true, if_false, BranchOp.pick_funct3, funct7_append,
        BitVec.extractLsb'_append_eq_right, Option.map_some]
  | store o a b hi lo =>
      simp only [decode, encode, opcode_word, funct3_word, rs1_word, rs2_word, funct12_word,
        rd_word, BitVec.reduceEq, if_true, if_false, StoreOp.pick_funct3, funct7_append,
        BitVec.extractLsb'_append_eq_right, Option.map_some]
  | load o d a imm =>
      simp only [decode, encode, opcode_word, funct3_word, rs1_word, funct12_word, rd_word,
        BitVec.reduceEq, if_true, if_false, LoadOp.pick_funct3, Option.map_some]
  | opImm o d a imm =>
      simp only [decode, decodeImm, encode, opcode_word, funct3_word, rs1_word, funct12_word,
        rd_word, BitVec.reduceEq, if_true, if_false, ImmOp.pick_funct3]
  | shiftImm o d a shamt =>
      simp only [decode, decodeImm, encode, opcode_word, funct3_word, rs1_word, funct12_word,
        rd_word, BitVec.reduceEq, if_true, if_false, ShiftOp.pick_imm, funct6_append,
        ShiftOp.pick_codes, BitVec.extractLsb'_append_eq_right, Option.map_some]
  | shiftImmW o d a shamt =>
      simp only [decode, decodeImmW, encode, opcode_word, funct3_word, rs1_word, funct12_word,
        rd_word, BitVec.reduceEq, if_true, if_false, ShiftOp.funct3_ne, funct7_append_shift,
        ShiftOp.pick_codesW, BitVec.extractLsb'_append_eq_right, Option.map_some]
  | op o d a b =>
      simp only [decode, encode, opcode_word, funct3_word, rs1_word, rs2_word, funct12_word,
        rd_word, BitVec.reduceEq, if_true, if_false, RegOp.pick_codes, funct7_append,
        BitVec.extractLsb'_append_eq_right, Option.map_some]
  | opW o d a b =>
      simp only [decode, encode, opcode_word, funct3_word, rs1_word, rs2_word, funct12_word,
        rd_word, BitVec.reduceEq, if_true, if_false, RegOpW.pick_codes, funct7_append,
        BitVec.extractLsb'_append_eq_right, Option.map_some]
  | jalr d a imm | addiw d a imm | fence d a imm =>
      simp only [decode, decodeImmW, encode, opcode_word, funct3_word, rs1_word, funct12_word,
        rd_word, BitVec.reduceEq, if_true, if_false]
  | csr o d a addr =>
      simp only [decode, decodeSystem, encode, opcode_word, funct3_word, rs1_word, funct12_word,
        rd_word, BitVec.reduceEq, if_true, if_false, CsrOp.pick_funct3]
  | ecall | ebreak | mret => rfl

section Words

variable {w : BitVec 32} {x : Instr}

theorem Instr.wordU_slice (w : BitVec 32) : wordU (w.extractLsb' 12 20) (rd w) (opcode w) = w := by
  refine BitVec.eq_of_getLsbD_eq ?_
  intro k hk
  simp only [wordU, word, rd, opcode, BitVec.getLsbD_extractLsb', BitVec.getLsbD_append]
  grind

/-- A word from its register fields and a 7-bit function code. -/
theorem Instr.word_funct7 (w : BitVec 32) :
    word (funct7 (funct12 w) ++ rs2 w) (rs1 w) (funct3 w) (rd w) (opcode w) = w := by
  have hrs2 : rs2 w = (funct12 w).extractLsb' 0 5 :=
    (slice_slice w (j := 20) (k := 0) (by decide)).symm
  rw [hrs2, append_funct7, word_fields]

theorem Instr.encode_of_decodeImm (hop : opcode w = 0b0010011#7) (h : decodeImm w = some x) :
    x.encode = w := by
  unfold decodeImm at h
  split at h
  · rename_i o ho
    obtain rfl := Option.some.inj h
    rw [encode, code_of_pick ho, ← hop, word_fields]
  · obtain ⟨o, ho, rfl⟩ := Option.map_eq_some_iff.mp h
    have hcode : o.codes = (funct3 w, funct6 (funct12 w)) := code_of_pick ho
    obtain ⟨h3, h6⟩ := Prod.mk.inj hcode
    rw [encode, h3, h6, ← hop, append_funct6, word_fields]

theorem Instr.encode_of_decodeImmW (hop : opcode w = 0b0011011#7) (h : decodeImmW w = some x) :
    x.encode = w := by
  unfold decodeImmW at h
  split at h
  · rename_i h3
    obtain rfl := Option.some.inj h
    rw [encode, ← h3, ← hop, word_fields]
  · obtain ⟨o, ho, rfl⟩ := Option.map_eq_some_iff.mp h
    have hcode : o.codesW = (funct3 w, funct7 (funct12 w)) := code_of_pick ho
    obtain ⟨h3, h7⟩ := Prod.mk.inj hcode
    rw [encode, h3, h7, ← hop, append_funct7, word_fields]

theorem Instr.encode_of_decodeSystem (hop : opcode w = 0b1110011#7) (h : decodeSystem w = some x) :
    x.encode = w := by
  unfold decodeSystem at h
  split at h
  · rename_i o ho
    obtain rfl := Option.some.inj h
    rw [encode, code_of_pick ho, ← hop, word_fields]
  · exact beq_iff_eq.mp (List.find?_some (p := fun x => Instr.encode x == w) h)

/-- **What is decoded encodes back.** -/
theorem Instr.encode_of_decode (h : decode w = some x) : x.encode = w := by
  unfold decode at h
  by_cases hlui : opcode w = 0b0110111#7
  · rw [if_pos hlui] at h
    obtain rfl := Option.some.inj h
    rw [encode, ← hlui, wordU_slice]
  rw [if_neg hlui] at h
  by_cases hauipc : opcode w = 0b0010111#7
  · rw [if_pos hauipc] at h
    obtain rfl := Option.some.inj h
    rw [encode, ← hauipc, wordU_slice]
  rw [if_neg hauipc] at h
  by_cases hjal : opcode w = 0b1101111#7
  · rw [if_pos hjal] at h
    obtain rfl := Option.some.inj h
    rw [encode, ← hjal, wordU_slice]
  rw [if_neg hjal] at h
  by_cases hjalr : opcode w = 0b1100111#7
  · rw [if_pos hjalr] at h
    split at h
    · rename_i h3
      obtain rfl := Option.some.inj h
      rw [encode, ← hjalr, ← h3, word_fields]
    · exact absurd h.symm (Option.some_ne_none _)
  rw [if_neg hjalr] at h
  by_cases hbranch : opcode w = 0b1100011#7
  · rw [if_pos hbranch] at h
    obtain ⟨o, ho, rfl⟩ := Option.map_eq_some_iff.mp h
    rw [encode, code_of_pick ho, ← hbranch, word_funct7]
  rw [if_neg hbranch] at h
  by_cases hload : opcode w = 0b0000011#7
  · rw [if_pos hload] at h
    obtain ⟨o, ho, rfl⟩ := Option.map_eq_some_iff.mp h
    rw [encode, code_of_pick ho, ← hload, word_fields]
  rw [if_neg hload] at h
  by_cases hstore : opcode w = 0b0100011#7
  · rw [if_pos hstore] at h
    obtain ⟨o, ho, rfl⟩ := Option.map_eq_some_iff.mp h
    rw [encode, code_of_pick ho, ← hstore, word_funct7]
  rw [if_neg hstore] at h
  by_cases himm : opcode w = 0b0010011#7
  · rw [if_pos himm] at h
    exact encode_of_decodeImm himm h
  rw [if_neg himm] at h
  by_cases himmW : opcode w = 0b0011011#7
  · rw [if_pos himmW] at h
    exact encode_of_decodeImmW himmW h
  rw [if_neg himmW] at h
  by_cases hreg : opcode w = 0b0110011#7
  · rw [if_pos hreg] at h
    obtain ⟨o, ho, rfl⟩ := Option.map_eq_some_iff.mp h
    have hcode : o.codes = (funct3 w, funct7 (funct12 w)) := code_of_pick ho
    obtain ⟨h3, h7⟩ := Prod.mk.inj hcode
    rw [encode, h3, h7, ← hreg, word_funct7]
  rw [if_neg hreg] at h
  by_cases hregW : opcode w = 0b0111011#7
  · rw [if_pos hregW] at h
    obtain ⟨o, ho, rfl⟩ := Option.map_eq_some_iff.mp h
    have hcode : o.codes = (funct3 w, funct7 (funct12 w)) := code_of_pick ho
    obtain ⟨h3, h7⟩ := Prod.mk.inj hcode
    rw [encode, h3, h7, ← hregW, word_funct7]
  rw [if_neg hregW] at h
  by_cases hfence : opcode w = 0b0001111#7
  · rw [if_pos hfence] at h
    split at h
    · rename_i h3
      obtain rfl := Option.some.inj h
      rw [encode, ← hfence, ← h3, word_fields]
    · exact absurd h.symm (Option.some_ne_none _)
  rw [if_neg hfence] at h
  by_cases hsys : opcode w = 0b1110011#7
  · rw [if_pos hsys] at h
    exact encode_of_decodeSystem hsys h
  rw [if_neg hsys] at h
  exact absurd h.symm (Option.some_ne_none _)

end Words

/-- **Decoding.** A word decodes to the instruction that encodes to it, if there is one. -/
theorem Instr.decode_eq_some_iff {w : BitVec 32} {x : Instr} : decode w = some x ↔ x.encode = w :=
  ⟨encode_of_decode, fun h => by rw [← h, decode_encode]⟩

theorem Instr.decode_eq_none_iff {w : BitVec 32} : decode w = none ↔ ¬ Legal w := by
  constructor
  · intro h hlegal
    obtain ⟨x, rfl⟩ := hlegal
    rw [decode_encode] at h
    exact absurd h (Option.some_ne_none _)
  · intro h
    cases hw : decode w with
    | none => rfl
    | some x => exact absurd ⟨x, encode_of_decode hw⟩ h

end Isa

end PassiFlo
