import PassiFlo.Rtl.Run

/-!
# The data RAM

`Altsyncram` is an instance of `AltsyncramSpec`, so the specification is not vacuous;
and what the core needs from any instance: equal words stay equal whatever the
output latch holds, and an idle port changes nothing.
-/

namespace PassiFlo

open Lanes

/-! ## The reference instance -/

theorem byte_bitMask : ∀ (be : BitVec 8) (k : Fin 8),
    byte (Altsyncram.bitMask be) k = rep 8 (be.getLsbD k) := by
  decide +kernel

theorem byte_and (x y : BitVec 64) (k : Nat) : byte (x &&& y) k = byte x k &&& byte y k :=
  BitVec.extractLsb'_and

theorem byte_or (x y : BitVec 64) (k : Nat) : byte (x ||| y) k = byte x k ||| byte y k :=
  BitVec.extractLsb'_or

theorem byte_not (x : BitVec 64) {k : Nat} (hk : k < 8) : byte (~~~x) k = ~~~byte x k := by
  refine BitVec.eq_of_getLsbD_eq ?_
  intro i hi
  have h : 8 * k + i < 64 := by omega
  simp only [byte_getLsbD _ _ _ hi, BitVec.getLsbD_not, h, hi]

theorem altsyncramSpec : AltsyncramSpec Altsyncram.clock Altsyncram.q where
  writes := by
    intro r p a k hk
    have hm : byte (Altsyncram.bitMask p.byteena) k = rep 8 (p.byteena.getLsbD k) :=
      byte_bitMask p.byteena ⟨k, hk⟩
    simp only [Altsyncram.clock]
    by_cases hw : p.wren = true ∧ a = p.address
    · have hw' : (p.wren && a == p.address) = true := by simp [hw.1, hw.2]
      rw [if_pos hw', byte_or, byte_and, byte_and, byte_not _ hk, hm]
      cases hb : p.byteena.getLsbD k with
      | false =>
          rw [show rep 8 false = 0#8 by decide, BitVec.and_zero, BitVec.zero_or, BitVec.not_zero,
            BitVec.and_allOnes, if_neg fun h => Bool.false_ne_true h.2.2]
      | true =>
          rw [show rep 8 true = BitVec.allOnes 8 by decide, BitVec.not_allOnes, BitVec.and_zero,
            BitVec.or_zero, BitVec.and_allOnes, if_pos ⟨hw.1, hw.2, rfl⟩]
    · have hw' : (p.wren && a == p.address) = false := by simpa using hw
      rw [hw', if_neg Bool.false_ne_true, if_neg fun h => hw ⟨h.1, h.2.1⟩]
  reads := by
    intro r p h
    simp only [Altsyncram.clock, h, if_true]
  holds := by
    intro r p h
    simp only [Altsyncram.clock, h, Bool.false_eq_true, if_false]
  output := fun _ _ => rfl

theorem Chip.ofProgram_altsyncram (program : List (BitVec 32)) :
    (Chip.ofProgram program).Altsyncram := altsyncramSpec

/-! ## What any instance guarantees -/

namespace AltsyncramSpec

variable {clock : Ram → RamPort → Ram} {q : Ram → RamPort → BitVec 64}

/-- Without a write the words stay. -/
theorem words_of_not_wren (h : AltsyncramSpec clock q) {r : Ram} {p : RamPort}
    (hw : p.wren = false) : (clock r p).words = r.words := by
  funext a
  refine ext_byte (n := 8) ?_
  intro k hk
  rw [h.writes r p a k hk, if_neg fun hc => Bool.false_ne_true (hw.symm.trans hc.1)]

/-- The words evolve independently of the output. -/
theorem words_congr (h : AltsyncramSpec clock q) {r r' : Ram} {p : RamPort}
    (hw : r.words = r'.words) : (clock r p).words = (clock r' p).words := by
  funext a
  refine ext_byte (n := 8) ?_
  intro k hk
  rw [h.writes r p a k hk, h.writes r' p a k hk, hw]

/-- An idle port leaves the RAM as it is. -/
theorem clock_idle (h : AltsyncramSpec clock q) {r : Ram} {p : RamPort} (hr : p.rden = false)
    (hw : p.wren = false) : clock r p = r :=
  Ram.ext (h.words_of_not_wren hw) (h.holds r p hr)

end AltsyncramSpec

end PassiFlo
