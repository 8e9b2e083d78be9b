import PassiFlo.Rtl.Decoder

/-!
# The instruction set

The grammar of RV64I_Zicsr with `mret`: an abstract syntax, its encoding, and from the
two which of the 2^32 words are instructions. The decoder plays no part in it.
-/

namespace PassiFlo

namespace Isa

/-! ## Syntax -/

inductive BranchOp | beq | bne | blt | bge | bltu | bgeu
  deriving DecidableEq

inductive LoadOp | lb | lh | lw | ld | lbu | lhu | lwu
  deriving DecidableEq

inductive StoreOp | sb | sh | sw | sd
  deriving DecidableEq

/-- The register-immediate operations that take a full immediate. -/
inductive ImmOp | addi | slti | sltiu | xori | ori | andi
  deriving DecidableEq

/-- The shifts by an immediate. -/
inductive ShiftOp | sll | srl | sra
  deriving DecidableEq

inductive RegOp | add | sub | sll | slt | sltu | xor | srl | sra | or | and
  deriving DecidableEq

/-- The register-register operations on words. -/
inductive RegOpW | addw | subw | sllw | srlw | sraw
  deriving DecidableEq

inductive CsrOp | csrrw | csrrs | csrrc | csrrwi | csrrsi | csrrci
  deriving DecidableEq

instance : Fintype BranchOp :=
  ⟨{.beq, .bne, .blt, .bge, .bltu, .bgeu}, fun x => by cases x <;> decide⟩

instance : Fintype LoadOp :=
  ⟨{.lb, .lh, .lw, .ld, .lbu, .lhu, .lwu}, fun x => by cases x <;> decide⟩

instance : Fintype StoreOp :=
  ⟨{.sb, .sh, .sw, .sd}, fun x => by cases x <;> decide⟩

instance : Fintype ImmOp :=
  ⟨{.addi, .slti, .sltiu, .xori, .ori, .andi}, fun x => by cases x <;> decide⟩

instance : Fintype ShiftOp :=
  ⟨{.sll, .srl, .sra}, fun x => by cases x <;> decide⟩

instance : Fintype RegOp :=
  ⟨{.add, .sub, .sll, .slt, .sltu, .xor, .srl, .sra, .or, .and}, fun x => by cases x <;> decide⟩

instance : Fintype RegOpW :=
  ⟨{.addw, .subw, .sllw, .srlw, .sraw}, fun x => by cases x <;> decide⟩

instance : Fintype CsrOp :=
  ⟨{.csrrw, .csrrs, .csrrc, .csrrwi, .csrrsi, .csrrci}, fun x => by cases x <;> decide⟩

/--
An instruction. Immediates are the raw fields of the format, so that two words of the
same instruction differ in one of the arguments.
-/
inductive Instr
  | lui (rd : BitVec 5) (imm : BitVec 20)
  | auipc (rd : BitVec 5) (imm : BitVec 20)
  | jal (rd : BitVec 5) (imm : BitVec 20)
  | jalr (rd rs1 : BitVec 5) (imm : BitVec 12)
  | branch (op : BranchOp) (rs1 rs2 : BitVec 5) (immHigh : BitVec 7) (immLow : BitVec 5)
  | load (op : LoadOp) (rd rs1 : BitVec 5) (imm : BitVec 12)
  | store (op : StoreOp) (rs1 rs2 : BitVec 5) (immHigh : BitVec 7) (immLow : BitVec 5)
  | opImm (op : ImmOp) (rd rs1 : BitVec 5) (imm : BitVec 12)
  | shiftImm (op : ShiftOp) (rd rs1 : BitVec 5) (shamt : BitVec 6)
  | addiw (rd rs1 : BitVec 5) (imm : BitVec 12)
  | shiftImmW (op : ShiftOp) (rd rs1 : BitVec 5) (shamt : BitVec 5)
  | op (op : RegOp) (rd rs1 rs2 : BitVec 5)
  | opW (op : RegOpW) (rd rs1 rs2 : BitVec 5)
  | fence (rd rs1 : BitVec 5) (imm : BitVec 12)
  | ecall
  | ebreak
  | mret
  | csr (op : CsrOp) (rd rs1 : BitVec 5) (addr : BitVec 12)

/-! ## Encoding -/

def BranchOp.funct3 : BranchOp → BitVec 3
  | beq => 0b000#3
  | bne => 0b001#3
  | blt => 0b100#3
  | bge => 0b101#3
  | bltu => 0b110#3
  | bgeu => 0b111#3

def LoadOp.funct3 : LoadOp → BitVec 3
  | lb => 0b000#3
  | lh => 0b001#3
  | lw => 0b010#3
  | ld => 0b011#3
  | lbu => 0b100#3
  | lhu => 0b101#3
  | lwu => 0b110#3

def StoreOp.funct3 : StoreOp → BitVec 3
  | sb => 0b000#3
  | sh => 0b001#3
  | sw => 0b010#3
  | sd => 0b011#3

def ImmOp.funct3 : ImmOp → BitVec 3
  | addi => 0b000#3
  | slti => 0b010#3
  | sltiu => 0b011#3
  | xori => 0b100#3
  | ori => 0b110#3
  | andi => 0b111#3

def ShiftOp.funct3 : ShiftOp → BitVec 3
  | sll => 0b001#3
  | srl | sra => 0b101#3

def ShiftOp.funct6 : ShiftOp → BitVec 6
  | sll | srl => 0b000000#6
  | sra => 0b010000#6

def RegOp.funct3 : RegOp → BitVec 3
  | add | sub => 0b000#3
  | sll => 0b001#3
  | slt => 0b010#3
  | sltu => 0b011#3
  | xor => 0b100#3
  | srl | sra => 0b101#3
  | or => 0b110#3
  | and => 0b111#3

def RegOp.funct7 : RegOp → BitVec 7
  | sub | sra => 0b0100000#7
  | _ => 0b0000000#7

def RegOpW.funct3 : RegOpW → BitVec 3
  | addw | subw => 0b000#3
  | sllw => 0b001#3
  | srlw | sraw => 0b101#3

def RegOpW.funct7 : RegOpW → BitVec 7
  | subw | sraw => 0b0100000#7
  | _ => 0b0000000#7

def CsrOp.funct3 : CsrOp → BitVec 3
  | csrrw => 0b001#3
  | csrrs => 0b010#3
  | csrrc => 0b011#3
  | csrrwi => 0b101#3
  | csrrsi => 0b110#3
  | csrrci => 0b111#3

/-- A word from its fields. -/
def word (f12 : BitVec 12) (rs1 : BitVec 5) (f3 : BitVec 3) (rd : BitVec 5) (op : BitVec 7) :
    BitVec 32 :=
  f12 ++ rs1 ++ f3 ++ rd ++ op

/-- A word of the U and J formats. -/
def wordU (imm : BitVec 20) (rd : BitVec 5) (op : BitVec 7) : BitVec 32 :=
  word (imm.extractLsb' 8 12) (imm.extractLsb' 3 5) (imm.extractLsb' 0 3) rd op

/-- The encoding of an instruction. -/
def Instr.encode : Instr → BitVec 32
  | lui rd imm => wordU imm rd 0b0110111#7
  | auipc rd imm => wordU imm rd 0b0010111#7
  | jal rd imm => wordU imm rd 0b1101111#7
  | jalr rd rs1 imm => word imm rs1 0b000#3 rd 0b1100111#7
  | branch o rs1 rs2 immHigh immLow => word (immHigh ++ rs2) rs1 o.funct3 immLow 0b1100011#7
  | load o rd rs1 imm => word imm rs1 o.funct3 rd 0b0000011#7
  | store o rs1 rs2 immHigh immLow => word (immHigh ++ rs2) rs1 o.funct3 immLow 0b0100011#7
  | opImm o rd rs1 imm => word imm rs1 o.funct3 rd 0b0010011#7
  | shiftImm o rd rs1 shamt => word (o.funct6 ++ shamt) rs1 o.funct3 rd 0b0010011#7
  | addiw rd rs1 imm => word imm rs1 0b000#3 rd 0b0011011#7
  | shiftImmW o rd rs1 shamt => word (o.funct6 ++ 0#1 ++ shamt) rs1 o.funct3 rd 0b0011011#7
  | op o rd rs1 rs2 => word (o.funct7 ++ rs2) rs1 o.funct3 rd 0b0110011#7
  | opW o rd rs1 rs2 => word (o.funct7 ++ rs2) rs1 o.funct3 rd 0b0111011#7
  | fence rd rs1 imm => word imm rs1 0b000#3 rd 0b0001111#7
  | ecall => word 0x000#12 0 0b000#3 0 0b1110011#7
  | ebreak => word 0x001#12 0 0b000#3 0 0b1110011#7
  | mret => word 0x302#12 0 0b000#3 0 0b1110011#7
  | csr o rd rs1 addr => word addr rs1 o.funct3 rd 0b1110011#7

/-- The words that are instructions. -/
def Legal (w : BitVec 32) : Prop := ∃ x : Instr, x.encode = w

/-! ## Fields -/

section Fields

variable (f12 : BitVec 12) (a : BitVec 5) (f3 : BitVec 3) (d : BitVec 5) (op : BitVec 7)

theorem opcode_word : opcode (word f12 a f3 d op) = op := BitVec.extractLsb'_append_eq_right

theorem rd_word : rd (word f12 a f3 d op) = d := by
  rw [rd, word, BitVec.extractLsb'_append_eq_of_le (by decide)]
  exact BitVec.extractLsb'_append_eq_right

theorem funct3_word : funct3 (word f12 a f3 d op) = f3 := by
  rw [funct3, word, BitVec.extractLsb'_append_eq_of_le (by decide),
    BitVec.extractLsb'_append_eq_of_le (by decide)]
  exact BitVec.extractLsb'_append_eq_right

theorem rs1_word : rs1 (word f12 a f3 d op) = a := by
  rw [rs1, word, BitVec.extractLsb'_append_eq_of_le (by decide),
    BitVec.extractLsb'_append_eq_of_le (by decide), BitVec.extractLsb'_append_eq_of_le (by decide)]
  exact BitVec.extractLsb'_append_eq_right

/-- Above bit 20 a word is its top field. -/
theorem slice_word (k n : Nat) :
    (word f12 a f3 d op).extractLsb' (20 + k) n = f12.extractLsb' k n := by
  rw [word, BitVec.extractLsb'_append_eq_of_le (by omega),
    BitVec.extractLsb'_append_eq_of_le (by omega), BitVec.extractLsb'_append_eq_of_le (by omega),
    BitVec.extractLsb'_append_eq_of_le (by omega), show 20 + k - 7 - 5 - 3 - 5 = k by omega]

theorem funct12_word : funct12 (word f12 a f3 d op) = f12 :=
  (slice_word f12 a f3 d op 0 12).trans BitVec.extractLsb'_eq_self

theorem rs2_word : rs2 (word f12 a f3 d op) = f12.extractLsb' 0 5 := slice_word f12 a f3 d op 0 5

theorem slice25_word : (word f12 a f3 d op).extractLsb' 25 7 = f12.extractLsb' 5 7 :=
  slice_word f12 a f3 d op 5 7

/-- All fields at once. -/
theorem fields_of_eq_word {f12 : BitVec 12} {a : BitVec 5} {f3 : BitVec 3} {d : BitVec 5}
    {op : BitVec 7} {w : BitVec 32} (h : w = word f12 a f3 d op) :
    opcode w = op ∧ rd w = d ∧ funct3 w = f3 ∧ rs1 w = a ∧ rs2 w = f12.extractLsb' 0 5 ∧
      funct12 w = f12 := by
  rw [h]
  exact ⟨opcode_word _ _ _ _ _, rd_word _ _ _ _ _, funct3_word _ _ _ _ _, rs1_word _ _ _ _ _,
    rs2_word _ _ _ _ _, funct12_word _ _ _ _ _⟩

/-- The immediate of the U and J formats. -/
theorem slice12_wordU (imm : BitVec 20) : (wordU imm d op).extractLsb' 12 20 = imm := by
  rw [wordU, word, BitVec.extractLsb'_append_eq_of_le (by decide),
    BitVec.extractLsb'_append_eq_of_le (by decide),
    BitVec.extractLsb'_append_extractLsb'_eq_extractLsb' (by decide),
    BitVec.extractLsb'_append_extractLsb'_eq_extractLsb' (by decide)]
  exact BitVec.extractLsb'_eq_self.trans BitVec.extractLsb'_eq_self

end Fields

/-- A word is made of its fields. -/
theorem word_fields (w : BitVec 32) :
    word (funct12 w) (rs1 w) (funct3 w) (rd w) (opcode w) = w := by
  rw [word, funct12, rs1, funct3, rd, opcode,
    BitVec.extractLsb'_append_extractLsb'_eq_extractLsb' (by decide),
    BitVec.extractLsb'_append_extractLsb'_eq_extractLsb' (by decide),
    BitVec.extractLsb'_append_extractLsb'_eq_extractLsb' (by decide),
    BitVec.extractLsb'_append_extractLsb'_eq_extractLsb' (by decide)]
  exact BitVec.extractLsb'_eq_self

/-! ## Legality, field by field -/

/-- The 7-bit function code of the register formats. -/
def funct7 (f12 : BitVec 12) : BitVec 7 := f12.extractLsb' 5 7

/-- The 6-bit function code of the shifts. -/
def funct6 (f12 : BitVec 12) : BitVec 6 := f12.extractLsb' 6 6

/-- What legality means for the fields of a word, opcode by opcode. -/
def LegalFields (op : BitVec 7) (f3 : BitVec 3) (f12 : BitVec 12) (rs1 rd : BitVec 5) : Prop :=
  op = 0b0110111#7 ∨ op = 0b0010111#7 ∨ op = 0b1101111#7 ∨
  op = 0b1100111#7 ∧ f3 = 0b000#3 ∨
  op = 0b1100011#7 ∧ f3 ≠ 0b010#3 ∧ f3 ≠ 0b011#3 ∨
  op = 0b0000011#7 ∧ f3 ≠ 0b111#3 ∨
  op = 0b0100011#7 ∧ f3.getLsbD 2 = false ∨
  op = 0b0010011#7 ∧ (f3 ≠ 0b001#3 ∧ f3 ≠ 0b101#3 ∨ f3 = 0b001#3 ∧ funct6 f12 = 0b000000#6 ∨
    f3 = 0b101#3 ∧ (funct6 f12 = 0b000000#6 ∨ funct6 f12 = 0b010000#6)) ∨
  op = 0b0011011#7 ∧ (f3 = 0b000#3 ∨ f3 = 0b001#3 ∧ funct7 f12 = 0b0000000#7 ∨
    f3 = 0b101#3 ∧ (funct7 f12 = 0b0000000#7 ∨ funct7 f12 = 0b0100000#7)) ∨
  op = 0b0110011#7 ∧ (funct7 f12 = 0b0000000#7 ∨
    funct7 f12 = 0b0100000#7 ∧ (f3 = 0b000#3 ∨ f3 = 0b101#3)) ∨
  op = 0b0111011#7 ∧ (funct7 f12 = 0b0000000#7 ∧ (f3 = 0b000#3 ∨ f3 = 0b001#3 ∨ f3 = 0b101#3) ∨
    funct7 f12 = 0b0100000#7 ∧ (f3 = 0b000#3 ∨ f3 = 0b101#3)) ∨
  op = 0b0001111#7 ∧ f3 = 0b000#3 ∨
  op = 0b1110011#7 ∧ (f3.extractLsb' 0 2 ≠ 0 ∨
    f3 = 0b000#3 ∧ rs1 = 0 ∧ rd = 0 ∧ (f12 = 0x000#12 ∨ f12 = 0x001#12 ∨ f12 = 0x302#12))

theorem funct7_append (f : BitVec 7) (x : BitVec 5) : funct7 (f ++ x) = f :=
  BitVec.extractLsb'_append_eq_left

theorem append_funct7 (f12 : BitVec 12) : funct7 f12 ++ f12.extractLsb' 0 5 = f12 :=
  BitVec.extractLsb'_append_extractLsb' (w := 7)

theorem funct6_append (f : BitVec 6) (x : BitVec 6) : funct6 (f ++ x) = f :=
  BitVec.extractLsb'_append_eq_left

theorem append_funct6 (f12 : BitVec 12) : funct6 f12 ++ f12.extractLsb' 0 6 = f12 :=
  BitVec.extractLsb'_append_extractLsb' (w := 6)

/-- The word shifts: a 6-bit function code and a zero make a 7-bit one. -/
theorem funct7_append_shift (f : BitVec 6) (x : BitVec 5) : funct7 (f ++ 0#1 ++ x) = f ++ 0#1 :=
  funct7_append _ _

/-! ### The function codes of each family -/

theorem BranchOp.exists_funct3 : ∀ f3 : BitVec 3,
    (∃ o : BranchOp, o.funct3 = f3) ↔ f3 ≠ 0b010#3 ∧ f3 ≠ 0b011#3 := by
  decide

theorem LoadOp.exists_funct3 : ∀ f3 : BitVec 3,
    (∃ o : LoadOp, o.funct3 = f3) ↔ f3 ≠ 0b111#3 := by
  decide

theorem StoreOp.exists_funct3 : ∀ f3 : BitVec 3,
    (∃ o : StoreOp, o.funct3 = f3) ↔ f3.getLsbD 2 = false := by
  decide

theorem ImmOp.exists_funct3 : ∀ f3 : BitVec 3,
    (∃ o : ImmOp, o.funct3 = f3) ↔ f3 ≠ 0b001#3 ∧ f3 ≠ 0b101#3 := by
  decide

theorem CsrOp.exists_funct3 : ∀ f3 : BitVec 3,
    (∃ o : CsrOp, o.funct3 = f3) ↔ f3.extractLsb' 0 2 ≠ 0 := by
  decide

theorem ShiftOp.exists_funct6 : ∀ (f3 : BitVec 3) (f6 : BitVec 6),
    (∃ o : ShiftOp, o.funct3 = f3 ∧ o.funct6 = f6) ↔ f3 = 0b001#3 ∧ f6 = 0b000000#6 ∨
      f3 = 0b101#3 ∧ (f6 = 0b000000#6 ∨ f6 = 0b010000#6) := by
  decide +kernel

theorem ShiftOp.exists_funct7 : ∀ (f3 : BitVec 3) (f7 : BitVec 7),
    (∃ o : ShiftOp, o.funct3 = f3 ∧ o.funct6 ++ 0#1 = f7) ↔ f3 = 0b001#3 ∧ f7 = 0b0000000#7 ∨
      f3 = 0b101#3 ∧ (f7 = 0b0000000#7 ∨ f7 = 0b0100000#7) := by
  decide +kernel

theorem RegOp.exists_funct7 : ∀ (f3 : BitVec 3) (f7 : BitVec 7),
    (∃ o : RegOp, o.funct3 = f3 ∧ o.funct7 = f7) ↔ f7 = 0b0000000#7 ∨
      f7 = 0b0100000#7 ∧ (f3 = 0b000#3 ∨ f3 = 0b101#3) := by
  decide +kernel

theorem RegOpW.exists_funct7 : ∀ (f3 : BitVec 3) (f7 : BitVec 7),
    (∃ o : RegOpW, o.funct3 = f3 ∧ o.funct7 = f7) ↔
      f7 = 0b0000000#7 ∧ (f3 = 0b000#3 ∨ f3 = 0b001#3 ∨ f3 = 0b101#3) ∨
        f7 = 0b0100000#7 ∧ (f3 = 0b000#3 ∨ f3 = 0b101#3) := by
  decide +kernel

/-! ### What is an instruction satisfies the conditions, and conversely -/

theorem legalFields_encode (x : Instr) :
    LegalFields (opcode x.encode) (funct3 x.encode) (funct12 x.encode) (rs1 x.encode)
      (rd x.encode) := by
  unfold LegalFields
  cases x <;> simp only [Instr.encode, wordU, opcode_word, funct3_word, funct12_word, rs1_word,
    rd_word, funct7_append, funct6_append, funct7_append_shift]
  case branch o _ _ _ _ => have h := (BranchOp.exists_funct3 _).mp ⟨o, rfl⟩; grind
  case load o _ _ _ => have h := (LoadOp.exists_funct3 _).mp ⟨o, rfl⟩; grind
  case store o _ _ _ _ => have h := (StoreOp.exists_funct3 _).mp ⟨o, rfl⟩; grind
  case opImm o _ _ _ => have h := (ImmOp.exists_funct3 _).mp ⟨o, rfl⟩; grind
  case shiftImm o _ _ _ => have h := (ShiftOp.exists_funct6 _ _).mp ⟨o, rfl, rfl⟩; grind
  case shiftImmW o _ _ _ => have h := (ShiftOp.exists_funct7 _ _).mp ⟨o, rfl, rfl⟩; grind
  case op o _ _ _ => have h := (RegOp.exists_funct7 _ _).mp ⟨o, rfl, rfl⟩; grind
  case opW o _ _ _ => have h := (RegOpW.exists_funct7 _ _).mp ⟨o, rfl, rfl⟩; grind
  case csr o _ _ _ => have h := (CsrOp.exists_funct3 _).mp ⟨o, rfl⟩; grind
  all_goals simp

/-- **Legality is a matter of fields.** -/
theorem legal_iff (w : BitVec 32) :
    Legal w ↔ LegalFields (opcode w) (funct3 w) (funct12 w) (rs1 w) (rd w) := by
  constructor
  · intro henc
    obtain ⟨x, rfl⟩ := henc
    exact legalFields_encode x
  have himm : wordU (w.extractLsb' 12 20) (rd w) (opcode w) = w := by
    refine BitVec.eq_of_getLsbD_eq ?_
    intro k hk
    simp only [wordU, word, rd, opcode, BitVec.getLsbD_extractLsb', BitVec.getLsbD_append]
    grind
  have hw := word_fields w
  have h7 := append_funct7 (funct12 w)
  have h6 := append_funct6 (funct12 w)
  intro hlegal
  rcases hlegal with h | h | h | ⟨h, h3⟩ | ⟨h, h3⟩ | ⟨h, h3⟩ | ⟨h, h3⟩ | ⟨h, h3⟩ | ⟨h, h3⟩ |
    ⟨h, h3⟩ | ⟨h, h3⟩ | ⟨h, h3⟩ | ⟨h, h3⟩
  · exact ⟨.lui (rd w) (w.extractLsb' 12 20), by rw [Instr.encode, ← h, himm]⟩
  · exact ⟨.auipc (rd w) (w.extractLsb' 12 20), by rw [Instr.encode, ← h, himm]⟩
  · exact ⟨.jal (rd w) (w.extractLsb' 12 20), by rw [Instr.encode, ← h, himm]⟩
  · exact ⟨.jalr (rd w) (rs1 w) (funct12 w), by rw [Instr.encode, ← h, ← h3, hw]⟩
  · obtain ⟨o, ho⟩ := (BranchOp.exists_funct3 _).mpr h3
    exact ⟨.branch o (rs1 w) ((funct12 w).extractLsb' 0 5) (funct7 (funct12 w)) (rd w),
      by rw [Instr.encode, ← h, ho, h7, hw]⟩
  · obtain ⟨o, ho⟩ := (LoadOp.exists_funct3 _).mpr h3
    exact ⟨.load o (rd w) (rs1 w) (funct12 w), by rw [Instr.encode, ← h, ho, hw]⟩
  · obtain ⟨o, ho⟩ := (StoreOp.exists_funct3 _).mpr h3
    exact ⟨.store o (rs1 w) ((funct12 w).extractLsb' 0 5) (funct7 (funct12 w)) (rd w),
      by rw [Instr.encode, ← h, ho, h7, hw]⟩
  · rcases h3 with h3 | h3
    · obtain ⟨o, ho⟩ := (ImmOp.exists_funct3 _).mpr h3
      exact ⟨.opImm o (rd w) (rs1 w) (funct12 w), by rw [Instr.encode, ← h, ho, hw]⟩
    · obtain ⟨o, ho, ho6⟩ := (ShiftOp.exists_funct6 _ _).mpr h3
      exact ⟨.shiftImm o (rd w) (rs1 w) ((funct12 w).extractLsb' 0 6),
        by rw [Instr.encode, ← h, ho, ho6, h6, hw]⟩
  · rcases h3 with h3 | h3
    · exact ⟨.addiw (rd w) (rs1 w) (funct12 w), by rw [Instr.encode, ← h, ← h3, hw]⟩
    · obtain ⟨o, ho, ho7⟩ := (ShiftOp.exists_funct7 _ _).mpr h3
      exact ⟨.shiftImmW o (rd w) (rs1 w) ((funct12 w).extractLsb' 0 5),
        by rw [Instr.encode, ← h, ho, ho7, h7, hw]⟩
  · obtain ⟨o, ho, ho7⟩ := (RegOp.exists_funct7 _ _).mpr h3
    exact ⟨.op o (rd w) (rs1 w) ((funct12 w).extractLsb' 0 5),
      by rw [Instr.encode, ← h, ho, ho7, h7, hw]⟩
  · obtain ⟨o, ho, ho7⟩ := (RegOpW.exists_funct7 _ _).mpr h3
    exact ⟨.opW o (rd w) (rs1 w) ((funct12 w).extractLsb' 0 5),
      by rw [Instr.encode, ← h, ho, ho7, h7, hw]⟩
  · exact ⟨.fence (rd w) (rs1 w) (funct12 w), by rw [Instr.encode, ← h, ← h3, hw]⟩
  · rcases h3 with h3 | ⟨h3, h1, hd, h12 | h12 | h12⟩
    · obtain ⟨o, ho⟩ := (CsrOp.exists_funct3 _).mpr h3
      exact ⟨.csr o (rd w) (rs1 w) (funct12 w), by rw [Instr.encode, ← h, ho, hw]⟩
    · exact ⟨.ecall, by rw [Instr.encode, ← hw, h, h3, h1, hd, h12]⟩
    · exact ⟨.ebreak, by rw [Instr.encode, ← hw, h, h3, h1, hd, h12]⟩
    · exact ⟨.mret, by rw [Instr.encode, ← hw, h, h3, h1, hd, h12]⟩

end Isa

end PassiFlo
