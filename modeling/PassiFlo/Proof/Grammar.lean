import PassiFlo.Isa.Instr
import PassiFlo.Proof.Decoding

/-!
# What the decoder accepts

`maindec` rejects every word whose opcode it does not know and every undefined SYSTEM
function. Under a known opcode, though, most of its arms end in a catch-all, and the
function codes the instruction set leaves unassigned run as their neighbours. This
file draws the line exactly.
-/

namespace PassiFlo

open Isa

/--
The reserved encodings under the opcodes of the instruction set: unassigned function
codes, and `ecall`, `ebreak` and `mret` with a register field that is not zero.
-/
def ReservedHole (op : BitVec 7) (f3 : BitVec 3) (f12 : BitVec 12) (rs1 rd : BitVec 5) : Prop :=
  -- branches, loads, stores, JALR and FENCE
  op = 0b1100011#7 ∧ (f3 = 0b010#3 ∨ f3 = 0b011#3) ∨
  op = 0b0000011#7 ∧ f3 = 0b111#3 ∨
  op = 0b0100011#7 ∧ f3.getLsbD 2 = true ∨
  op = 0b1100111#7 ∧ f3 ≠ 0b000#3 ∨
  op = 0b0001111#7 ∧ f3 ≠ 0b000#3 ∨
  -- shifts by an immediate
  op = 0b0010011#7 ∧ (f3 = 0b001#3 ∧ funct6 f12 ≠ 0b000000#6 ∨
    f3 = 0b101#3 ∧ funct6 f12 ≠ 0b000000#6 ∧ funct6 f12 ≠ 0b010000#6) ∨
  op = 0b0011011#7 ∧ (f3 = 0b001#3 ∧ funct7 f12 ≠ 0b0000000#7 ∨
    f3 = 0b101#3 ∧ funct7 f12 ≠ 0b0000000#7 ∧ funct7 f12 ≠ 0b0100000#7 ∨
    f3 = 0b010#3 ∨ f3 = 0b011#3 ∨ f3 = 0b100#3 ∨ f3 = 0b110#3 ∨ f3 = 0b111#3) ∨
  -- register operations, among them the whole of the M extension
  op = 0b0110011#7 ∧ funct7 f12 ≠ 0b0000000#7 ∧
    (funct7 f12 ≠ 0b0100000#7 ∨ f3 ≠ 0b000#3 ∧ f3 ≠ 0b101#3) ∨
  op = 0b0111011#7 ∧ (funct7 f12 ≠ 0b0000000#7 ∧ funct7 f12 ≠ 0b0100000#7 ∨
    funct7 f12 = 0b0100000#7 ∧ f3 = 0b001#3 ∨
    f3 = 0b010#3 ∨ f3 = 0b011#3 ∨ f3 = 0b100#3 ∨ f3 = 0b110#3 ∨ f3 = 0b111#3) ∨
  -- fixed fields of the SYSTEM instructions
  op = 0b1110011#7 ∧ f3 = 0b000#3 ∧ (f12 = 0x000#12 ∨ f12 = 0x001#12 ∨ f12 = 0x302#12) ∧
    (rs1 ≠ 0 ∨ rd ≠ 0)

/-- The decoder's own notion of an undefined instruction. -/
theorem maindec_illegal_iff {op : BitVec 7} {f3 : BitVec 3} {f12 : BitVec 12} :
    (maindec false op f3 f12).exceptSignal.getLsbD 2 = true ↔
      op ∉ opcodes ∨ op = 0b1110011#7 ∧ (f3 = 0b100#3 ∨
        f3 = 0b000#3 ∧ f12 ≠ 0x000#12 ∧ f12 ≠ 0x001#12 ∧ f12 ≠ 0x302#12) := by
  by_cases hop : op ∈ opcodes
  · rw [or_iff_right (not_not_intro hop)]
    constructor
    · intro h
      have hsys : op = 0b1110011#7 := by
        revert h hop
        exact maindec_rule
          (P := fun op d => op ∈ opcodes → d.exceptSignal.getLsbD 2 = true → op = 0b1110011#7)
          (by decide +kernel) (fun _ hn hop => absurd hop hn) op f3 f12
      subst hsys
      refine ⟨rfl, ?_⟩
      change (MainDec.ofBits (systemOutput f3 f12)).exceptSignal.getLsbD 2 = true at h
      by_cases h0 : f3 = 0b000#3
      · refine .inr ⟨h0, ?_⟩
        rw [systemOutput, if_pos h0] at h
        repeat' split at h
        case isFalse.isFalse.isFalse h1 h2 h3 => exact ⟨h2, h1, h3⟩
        all_goals exact absurd h (by decide)
      · refine .inl ?_
        rw [systemOutput, if_neg h0] at h
        rcases funct3_cases f3 with rfl | rfl | rfl | rfl | rfl | rfl | rfl | rfl
        case inr.inr.inr.inr.inl => rfl
        all_goals first | exact absurd rfl h0 | exact absurd h (by decide)
    · intro hfields
      obtain ⟨rfl, rfl | ⟨rfl, h1, h2, h3⟩⟩ := hfields
      · change (MainDec.ofBits illegalOutput).exceptSignal.getLsbD 2 = true
        decide
      · change (MainDec.ofBits (systemOutput 0b000#3 f12)).exceptSignal.getLsbD 2 = true
        rw [systemOutput, if_pos rfl, if_neg h2, if_neg h1, if_neg h3]
        decide
  · refine iff_of_true ?_ (.inl hop)
    rw [maindec, maindecOutput_illegal hop]
    decide

/-- Among the fields: what is undefined to the decoder, to the instruction set, and reserved. -/
theorem illegal_iff_not_legal (op : BitVec 7) (f3 : BitVec 3) (f12 : BitVec 12) (a d : BitVec 5) :
    ((op ∉ opcodes ∨ op = 0b1110011#7 ∧ (f3 = 0b100#3 ∨
        f3 = 0b000#3 ∧ f12 ≠ 0x000#12 ∧ f12 ≠ 0x001#12 ∧ f12 ≠ 0x302#12)) ↔
      ¬ LegalFields op f3 f12 a d) ↔ ¬ ReservedHole op f3 f12 a d := by
  by_cases hop : op ∈ opcodes
  · rw [or_iff_right (not_not_intro hop)]
    simp only [opcodes, List.mem_cons, List.not_mem_nil, or_false] at hop
    rcases hop with rfl | rfl | rfl | rfl | rfl | rfl | rfl | rfl | rfl | rfl | rfl | rfl | rfl
    -- each opcode leaves one clause of either list, in `funct3` and the function code
    all_goals simp [LegalFields, ReservedHole]
    case inr.inr.inl =>
      rcases funct3_cases f3 with rfl | rfl | rfl | rfl | rfl | rfl | rfl | rfl <;> simp
      grind
    case inr.inr.inr.inr.inl =>
      rcases funct3_cases f3 with rfl | rfl | rfl | rfl | rfl | rfl | rfl | rfl <;> simp
    case inr.inr.inr.inr.inr.inr.inr.inr.inr.inr.inr.inl =>
      rcases funct3_cases f3 with rfl | rfl | rfl | rfl | rfl | rfl | rfl | rfl <;> simp
      grind
    all_goals grind
  · refine iff_of_true (iff_of_true (.inl hop) ?_) ?_
    all_goals
      simp only [opcodes, List.mem_cons, List.not_mem_nil, or_false, not_or] at hop
      simp [LegalFields, ReservedHole, hop]

/--
**The decoder's grammar.** A word is handled as the instruction set demands (flagged
exactly when it is no instruction, and without side effects when flagged) if and only
if it is not one of the reserved encodings.
-/
theorem decoder_exact_iff (w : BitVec 32) :
    (((maindec false (opcode w) (funct3 w) (funct12 w)).exceptSignal.getLsbD 2 = true ↔
        ¬ Legal w) ∧
      ((maindec false (opcode w) (funct3 w) (funct12 w)).exceptSignal.getLsbD 2 = true →
        (maindec false (opcode w) (funct3 w) (funct12 w)).Inert)) ↔
      ¬ ReservedHole (opcode w) (funct3 w) (funct12 w) (rs1 w) (rd w) := by
  have hinert : (maindec false (opcode w) (funct3 w) (funct12 w)).exceptSignal.getLsbD 2 = true →
      (maindec false (opcode w) (funct3 w) (funct12 w)).Inert := by
    intro h
    refine maindec_except_inert fun h0 => ?_
    rw [h0] at h
    exact absurd h (by decide)
  rw [and_iff_left hinert, maindec_illegal_iff, legal_iff]
  exact illegal_iff_not_legal _ _ _ _ _

/-- `mul x1, x1, x2` is run as `add`. -/
theorem decoder_accepts_mul :
    ¬ ∀ w : BitVec 32,
      ((maindec false (opcode w) (funct3 w) (funct12 w)).exceptSignal.getLsbD 2 = true ↔
          ¬ Legal w) ∧
        ((maindec false (opcode w) (funct3 w) (funct12 w)).exceptSignal.getLsbD 2 = true →
          (maindec false (opcode w) (funct3 w) (funct12 w)).Inert) := by
  intro h
  have hlegal : ¬ Legal 0x022080b3#32 := by
    rw [legal_iff]
    unfold LegalFields
    decide +kernel
  exact absurd ((h 0x022080b3#32).1.mpr hlegal) (by decide +kernel)

end PassiFlo
