import PassiFlo.Rtl.Decoder

/-!
# RV64I_Zicsr encodings

The instruction formats as the instruction set defines them, independently of the
decoder: the immediates, and which of the 2^32 words are instructions at all.
-/

namespace PassiFlo

/-- I-immediate. -/
def iImm (w : BitVec 32) : BitVec 64 := (w.extractLsb' 20 12).signExtend 64

/-- S-immediate. -/
def sImm (w : BitVec 32) : BitVec 64 := (w.extractLsb' 25 7 ++ w.extractLsb' 7 5).signExtend 64

/-- B-immediate. -/
def bImm (w : BitVec 32) : BitVec 64 :=
  (w.extractLsb' 31 1 ++ w.extractLsb' 7 1 ++ w.extractLsb' 25 6 ++ w.extractLsb' 8 4 ++
    0#1).signExtend 64

/-- J-immediate. -/
def jImm (w : BitVec 32) : BitVec 64 :=
  (w.extractLsb' 31 1 ++ w.extractLsb' 12 8 ++ w.extractLsb' 20 1 ++ w.extractLsb' 21 10 ++
    0#1).signExtend 64

/-- U-immediate. -/
def uImm (w : BitVec 32) : BitVec 64 := (w.extractLsb' 12 20 ++ 0#12).signExtend 64

/-! ## Immediates of the decoder -/

theorem getLsbD_rep {n k : Nat} {b : Bool} (hk : k < n) : (rep n b).getLsbD k = b := by
  simp [rep, hk]

/-- Replicating the sign bit in front is sign extension. -/
theorem rep_append_eq_signExtend {n m : Nat} (x : BitVec n) :
    rep m (x.getLsbD (n - 1)) ++ x = x.signExtend (m + n) := by
  refine BitVec.eq_of_getLsbD_eq ?_
  intro k hk
  rw [BitVec.getLsbD_append, BitVec.getLsbD_signExtend, BitVec.msb_eq_getLsbD_last]
  by_cases h : k < n
  · simp [h, hk]
  · rw [if_neg h, if_neg h, getLsbD_rep (by omega)]
    simp [hk]

/-- Arithmetic, loads and JALR take the I-immediate. -/
theorem signext_iImm {w : BitVec 32}
    (h : opcode w = 0b0010011#7 ∨ opcode w = 0b1100111#7 ∨ opcode w = 0b0000011#7) :
    signext w = iImm w := by
  have hbit : w.getLsbD 31 = (w.extractLsb' 20 12).getLsbD (12 - 1) := by
    rw [BitVec.getLsbD_extractLsb']; rfl
  have hform : signext w = rep 52 (w.getLsbD 31) ++ w.extractLsb' 20 12 := by
    unfold signext
    rcases h with h | h | h <;> rw [h] <;> rfl
  rw [hform, hbit]
  exact rep_append_eq_signExtend _

/-- Concatenation is associative, bit by bit. -/
theorem append_append {l m n : Nat} (x : BitVec l) (y : BitVec m) (z : BitVec n) (k : Nat) :
    (x ++ y ++ z).getLsbD k = (x ++ (y ++ z)).getLsbD k := by
  simp only [BitVec.getLsbD_append, Nat.sub_sub]
  split_ifs <;> first | rfl | omega | (congr 1; omega)

theorem signext_store {w : BitVec 32} (h : opcode w = 0b0100011#7) : signext w = sImm w := by
  have hbit : w.getLsbD 31 = (w.extractLsb' 25 7 ++ w.extractLsb' 7 5).getLsbD (12 - 1) := by
    rw [BitVec.getLsbD_append, if_neg (by decide), BitVec.getLsbD_extractLsb']; rfl
  have hform : signext w = rep 52 (w.getLsbD 31) ++ (w.extractLsb' 25 7 ++ w.extractLsb' 7 5) := by
    unfold signext; rw [h]
    exact BitVec.eq_of_getLsbD_eq fun k _ => append_append _ _ _ k
  rw [hform, hbit]
  exact rep_append_eq_signExtend _

/-- Shifting in the zero that the immediate generator leaves out. -/
theorem signExtend_shiftLeft_one {n : Nat} (x : BitVec n) (hn : 0 < n) :
    (x.signExtend 64) <<< 1 = (x ++ 0#1).signExtend 64 := by
  refine BitVec.eq_of_getLsbD_eq ?_
  intro k hk
  rw [BitVec.getLsbD_shiftLeft, BitVec.getLsbD_signExtend, BitVec.getLsbD_signExtend,
    BitVec.getLsbD_append, BitVec.msb_append, if_neg (show ¬ n = 0 by omega)]
  cases k with
  | zero => simp
  | succ k =>
      by_cases hkn : k < n
      · simp [hk, hkn, show k < 64 by omega]
      · simp [hk, hkn, show k < 64 by omega]

theorem signext_branch {w : BitVec 32} (h : opcode w = 0b1100011#7) : signext w <<< 1 = bImm w := by
  have hbit : (w.extractLsb' 31 1 ++ w.extractLsb' 7 1 ++ w.extractLsb' 25 6 ++ w.extractLsb' 8 4 :
      BitVec 12).getLsbD (12 - 1) = w.getLsbD 31 := by
    simp only [BitVec.getLsbD_append, BitVec.getLsbD_extractLsb']
    rfl
  have hform : signext w = rep 52 (w.getLsbD 31) ++ BitVec.ofBool (w.getLsbD 31) ++
      w.extractLsb' 7 1 ++ w.extractLsb' 25 6 ++ w.extractLsb' 8 4 := by
    unfold signext; rw [h]; rfl
  have hext : signext w = (w.extractLsb' 31 1 ++ w.extractLsb' 7 1 ++ w.extractLsb' 25 6 ++
      w.extractLsb' 8 4 : BitVec 12).signExtend 64 := by
    rw [hform, ← rep_append_eq_signExtend, hbit]
    refine BitVec.eq_of_getLsbD_eq ?_
    intro k hk
    simp only [BitVec.getLsbD_append, BitVec.getLsbD_ofBool, BitVec.getLsbD_extractLsb',
      Nat.sub_sub]
    grind
  rw [hext]
  exact signExtend_shiftLeft_one _ (by decide)

theorem signext_jal {w : BitVec 32} (h : opcode w = 0b1101111#7) : signext w <<< 1 = jImm w := by
  have hbit : (w.extractLsb' 31 1 ++ w.extractLsb' 12 8 ++ w.extractLsb' 20 1 ++
      w.extractLsb' 21 10 : BitVec 20).getLsbD (20 - 1) = w.getLsbD 31 := by
    simp only [BitVec.getLsbD_append, BitVec.getLsbD_extractLsb']
    rfl
  have hform : signext w = rep 44 (w.getLsbD 31) ++ BitVec.ofBool (w.getLsbD 31) ++
      w.extractLsb' 12 8 ++ w.extractLsb' 20 1 ++ w.extractLsb' 21 10 := by
    unfold signext; rw [h]; rfl
  have hext : signext w = (w.extractLsb' 31 1 ++ w.extractLsb' 12 8 ++ w.extractLsb' 20 1 ++
      w.extractLsb' 21 10 : BitVec 20).signExtend 64 := by
    rw [hform, ← rep_append_eq_signExtend, hbit]
    refine BitVec.eq_of_getLsbD_eq ?_
    intro k hk
    simp only [BitVec.getLsbD_append, BitVec.getLsbD_ofBool, BitVec.getLsbD_extractLsb',
      Nat.sub_sub]
    grind
  rw [hext]
  exact signExtend_shiftLeft_one _ (by decide)

theorem signext_uImm {w : BitVec 32} (h : opcode w = 0b0110111#7 ∨ opcode w = 0b0010111#7) :
    signext w = uImm w := by
  have hbit : (w.extractLsb' 12 20 ++ 0#12).getLsbD (32 - 1) = w.getLsbD 31 := by
    simp only [BitVec.getLsbD_append, BitVec.getLsbD_extractLsb']
    rfl
  have hform : signext w = rep 32 (w.getLsbD 31) ++ w.extractLsb' 12 20 ++ 0#12 := by
    unfold signext
    rcases h with h | h <;> rw [h] <;> rfl
  rw [hform, uImm, ← rep_append_eq_signExtend, hbit]
  exact BitVec.eq_of_getLsbD_eq fun k _ => append_append _ _ _ k

/-- The word forms take the I-immediate too, as far as they look at it. -/
theorem signext_word_low {w : BitVec 32} (h : opcode w = 0b0011011#7) :
    (signext w).extractLsb' 0 32 = (iImm w).extractLsb' 0 32 := by
  have hbit : (w.extractLsb' 20 12).getLsbD (12 - 1) = w.getLsbD 31 := by
    rw [BitVec.getLsbD_extractLsb']; rfl
  have hform : signext w = 0#32 ++ rep 20 (w.getLsbD 31) ++ w.extractLsb' 20 12 := by
    unfold signext; rw [h]; rfl
  have hext : iImm w = rep 52 (w.getLsbD 31) ++ w.extractLsb' 20 12 := by
    rw [iImm, ← hbit]
    exact (rep_append_eq_signExtend _).symm
  rw [hform, hext]
  refine BitVec.eq_of_getLsbD_eq ?_
  intro k hk
  simp only [BitVec.getLsbD_extractLsb', BitVec.getLsbD_append, hk, decide_true, Bool.true_and,
    Nat.zero_add]
  by_cases hlow : k < 12
  · rw [if_pos hlow, if_pos hlow]
  · rw [if_neg hlow, if_neg hlow, if_pos (by omega), getLsbD_rep (by omega), getLsbD_rep (by omega)]

/-! ## Slices -/

theorem slice_slice {w : Nat} (x : BitVec w) {j k m n : Nat} (h : k + n ≤ m) :
    (x.extractLsb' j m).extractLsb' k n = x.extractLsb' (j + k) n := by
  refine BitVec.eq_of_getLsbD_eq ?_
  intro b hb
  simp only [BitVec.getLsbD_extractLsb', hb, show k + b < m by omega, decide_true, Bool.true_and,
    Nat.add_assoc]

end PassiFlo
