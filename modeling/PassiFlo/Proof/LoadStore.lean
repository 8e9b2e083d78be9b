import PassiFlo.Proof.Cycle
import PassiFlo.Proof.Ram
import PassiFlo.Isa.Encoding

/-!
# Loads and stores

Where a load or store goes, what it puts on the pins of the data RAM, and when it
counts as misaligned. The lane arithmetic of `memWriteMask`, `memReadMask` and
`except_E` is done here, one width at a time, and nowhere else.
-/

namespace PassiFlo

open Lanes

/-! ## Widths -/

/-- The number of bytes the two low bits of `funct3` ask for. -/
def accessBytes (f : BitVec 2) : Nat := 2 ^ f.toNat

/-- A width code enables that many lanes, from lane zero up. -/
theorem byteMask_widthCode : ∀ (f : BitVec 2) (k : Fin 9),
    ((byteMask (widthCode f)).setWidth 9).getLsbD k = decide (k.val < accessBytes f) := by
  decide

theorem byteMask_lane (f : BitVec 2) {k : Nat} (hk : k < 8) :
    (byteMask (widthCode f)).getLsbD k = decide (k < accessBytes f) := by
  rw [← byteMask_widthCode f ⟨k, by omega⟩, BitVec.getLsbD_setWidth]
  simp [show k < 9 by omega]

/-- **The misalignment detector.** It fires exactly when the access leaves its word. -/
theorem alignDetect_eq (offset : BitVec 3) (f : BitVec 2) :
    alignDetect offset (widthCode f) = decide (8 < offset.toNat + accessBytes f) := by
  revert offset f; decide

/-! ## The write side -/

/-- The lanes a store enables. -/
theorem memWriteMask_enable (offset : BitVec 3) (f : BitVec 2) (d : BitVec 64) {k : Nat}
    (hk : k < 8) :
    (memWriteMask offset (widthCode f) d).1.getLsbD k =
      decide (offset.toNat ≤ k ∧ k < offset.toNat + accessBytes f) := by
  rw [memWriteMask, BitVec.getLsbD_shiftLeft]
  by_cases ho : offset.toNat ≤ k
  · rw [byteMask_lane f (by omega)]
    simp only [hk, ho, decide_true, Bool.true_and, true_and, show ¬ k < offset.toNat by omega,
      decide_false, Bool.not_false]
    exact decide_eq_decide.mpr (by omega)
  · simp [ho, show k < offset.toNat by omega]

theorem shiftAmount (offset : BitVec 3) : (offset ++ 0#3 : BitVec 6).toNat = 8 * offset.toNat := by
  revert offset; decide

/-- The byte a store puts on an enabled lane. -/
theorem memWriteMask_data (offset : BitVec 3) (width : BitVec 3) (d : BitVec 64) {k : Nat}
    (hk : k < 8) (ho : offset.toNat ≤ k) :
    byte (memWriteMask offset width d).2 k = byte d (k - offset.toNat) := by
  rw [memWriteMask, shiftAmount]
  exact byte_shiftLeft d (by omega) ho

/-! ## Effective addresses -/

/-- The address of a load. -/
def loadAddr (s : State) (w : BitVec 32) : BitVec 64 := s.regs (rs1 w) + iImm w

/-- The address of a store. -/
def storeAddr (s : State) (w : BitVec 32) : BitVec 64 := s.regs (rs1 w) + sImm w

theorem alu_add (a b : BitVec 64) : (alu a b false 0b0010#4).result = a + b := by
  change ((a.setWidth 65 + b.setWidth 65).setWidth 64) = a + b
  rw [BitVec.setWidth_add _ _ (by decide)]
  simp

namespace Core

variable {C : Chip} {i : Inputs} {s : State}

/-- The address adder, as loads and stores use it. -/
theorem dmAddr_add (hsel : (ctl C i s).aluSelect = false) (hw : (ctl C i s).wArith = false)
    (hr : (ctl C i s).regSel = 0#2) (hsrc : (ctl C i s).aluSrc = true)
    (hop : (ctl C i s).aluOp = 0#2) (hjalr : opcode (instrMemText C s) ≠ 0b1100111#7) :
    dmAddr C i s = s.regs (rs1 (instrMemText C s)) + signext (instrMemText C s) := by
  have halu : (ctl C i s).aluControl = 0b0010#4 := by
    rw [ctl_aluControl, hsel, if_neg Bool.false_ne_true, hop]; rfl
  simp only [dmAddr, exec, execute, dec, decode, hsel, hw, hr, hsrc, halu, hjalr, alu_add,
    BitVec.getLsbD_zero, Bool.false_eq_true, if_false, if_true]

theorem ctl_load (h : coprocessorStall i s = false)
    (hop : opcode (instrMemText C s) = 0b0000011#7) :
    (ctl C i s).toMainDec = loadDec (loadSigned (funct3 (instrMemText C s)))
      (widthCode (loadSize (funct3 (instrMemText C s)))) := by
  rw [ctl_unstalled h, hop, maindec_load]

theorem ctl_store (h : coprocessorStall i s = false)
    (hop : opcode (instrMemText C s) = 0b0100011#7) :
    (ctl C i s).toMainDec = storeDec (widthCode (storeSize (funct3 (instrMemText C s)))) := by
  rw [ctl_unstalled h, hop, maindec_store]

theorem dmAddr_load (h : coprocessorStall i s = false)
    (hop : opcode (instrMemText C s) = 0b0000011#7) :
    dmAddr C i s = loadAddr s (instrMemText C s) := by
  have hrow := ctl_load h hop
  rw [dmAddr_add (by rw [hrow]; rfl) (by rw [hrow]; rfl) (by rw [hrow]; rfl) (by rw [hrow]; rfl)
    (by rw [hrow]; rfl) (by rw [hop]; decide), signext_iImm (.inr (.inr hop))]
  rfl

theorem dmAddr_store (h : coprocessorStall i s = false)
    (hop : opcode (instrMemText C s) = 0b0100011#7) :
    dmAddr C i s = storeAddr s (instrMemText C s) := by
  have hrow := ctl_store h hop
  rw [dmAddr_add (by rw [hrow]; rfl) (by rw [hrow]; rfl) (by rw [hrow]; rfl) (by rw [hrow]; rfl)
    (by rw [hrow]; rfl) (by rw [hop]; decide), signext_store hop]
  rfl

/-- A load crosses when its bytes run past the end of the word. -/
theorem crosses_load (h : coprocessorStall i s = false)
    (hop : opcode (instrMemText C s) = 0b0000011#7) :
    crosses C i s = decide (8 < ((loadAddr s (instrMemText C s)).extractLsb' 0 3).toNat +
      accessBytes (loadSize (funct3 (instrMemText C s)))) := by
  rw [crosses, dmAddr_load h hop, ctl_load h hop]
  exact alignDetect_eq _ _

/-- A store crosses when its bytes run past the end of the word. -/
theorem crosses_store (h : coprocessorStall i s = false)
    (hop : opcode (instrMemText C s) = 0b0100011#7) :
    crosses C i s = decide (8 < ((storeAddr s (instrMemText C s)).extractLsb' 0 3).toNat +
      accessBytes (storeSize (funct3 (instrMemText C s)))) := by
  rw [crosses, dmAddr_store h hop, ctl_store h hop]
  exact alignDetect_eq _ _

/-! ## The pins of the RAM -/

/-- Without a host request the port belongs to the program. -/
theorem dmemPort_unstalled (h : coprocessorStall i s = false) :
    dmemPort C i s =
      { data := (memWriteMask ((dmAddr C i s).extractLsb' 0 3) (ctl C i s).memWidth
          (s.regs (rs2 (instrMemText C s)))).2
        address := (dmAddr C i s).extractLsb' 3 12
        rden := (ctl C i s).memRead.getLsbD 0
        byteena := (memWriteMask ((dmAddr C i s).extractLsb' 0 3) (ctl C i s).memWidth
          (s.regs (rs2 (instrMemText C s)))).1
        wren := (ctl C i s).memWrite } := by
  obtain ⟨-, -, hre, hwe, -⟩ := stall_eq_false_iff.mp h
  simp only [dmemPort, hre, hwe, Bool.or_false, Bool.false_or, Bool.false_eq_true, if_false,
    dmReadEnable, dmWriteEnable]
  rfl

/-- While stalled the port only does what the host asks. -/
theorem dmemPort_stalled (h : coprocessorStall i s = true) :
    (dmemPort C i s).rden = i.memRe ∧ (dmemPort C i s).wren = i.memWe := by
  simp only [dmemPort, dmReadEnable, dmWriteEnable, ctl_stalled h]
  exact ⟨Bool.or_false _, Bool.or_false _⟩

/-- The value a load writes to the register file: the masked output of the RAM. -/
def loadValue (C : Chip) (i : Inputs) (s : State) : BitVec 64 :=
  memReadMask (readData C i s) (loadSigned (funct3 (instrMemText C s)))
    (widthCode (loadSize (funct3 (instrMemText C s))))
    ((loadAddr s (instrMemText C s)).extractLsb' 0 3)

theorem posedge_load_regs (h : coprocessorStall i s = false)
    (hop : opcode (instrMemText C s) = 0b0000011#7) :
    (posedge C i s).regs = regfileNext true (rd (instrMemText C s)) (loadValue C i s) s.regs := by
  have hrow := ctl_load h hop
  have hsigned : (ctl C i s).memRead.getLsbD 1 = loadSigned (funct3 (instrMemText C s)) := by
    rw [hrow, loadDec_signed]
  have hdata : writeData3 C i s = loadValue C i s := by
    rw [writeData3, readDataMasked, hsigned, dmAddr_load h hop, hrow]
    rfl
  rw [posedge_regs h, hdata, hrow]
  rfl

/-- The word a load addresses. -/
def loadWord (C : Chip) (s : State) : BitVec 64 :=
  s.ram.words ((loadAddr s (instrMemText C s)).extractLsb' 3 12)

/-- What a load makes of the word it is shown. -/
def loadMask (C : Chip) (s : State) (x : BitVec 64) : BitVec 64 :=
  memReadMask x (loadSigned (funct3 (instrMemText C s)))
    (widthCode (loadSize (funct3 (instrMemText C s))))
    ((loadAddr s (instrMemText C s)).extractLsb' 0 3)

/-- On the chip a load is shown the latch. -/
theorem loadValue_eq (hram : C.Altsyncram) : loadValue C i s = loadMask C s s.ram.latch := by
  rw [loadValue, readData, hram.output]
  rfl

/-- What a load that stays in its word does. -/
theorem posedge_load (hi : Unstalled i s) (hop : opcode (instrMemText C s) = 0b0000011#7)
    (hc : crosses C i s = false) :
    posedge C i s = { s with
      pc := s.pc + 4
      regs := regfileNext true (rd (instrMemText C s)) (loadValue C i s) s.regs
      ram := C.ramClock s.ram (dmemPort C i s)
      cycles := s.cycles + 1
      cycleStallFlag := flopre (!i.stopAt) false i.dataOut s.cycleStallFlag } := by
  have hrow := ctl_load hi.stall hop
  have hexc : exceptSignal C i s = 0 := by
    rw [exceptSignal_eq, exceptBits_eq_zero, hc, hrow]
    exact ⟨rfl, rfl, rfl⟩
  have hret : (ctl C i s).trapReturn = false := by rw [hrow]; rfl
  have hsrc : pcSrc C i s = false := by rw [pcSrc, hrow]; rfl
  have hcsr : csrWriteEnable C i s = false := by rw [csrWriteEnable, hrow]; rfl
  have hregs := (posedge_regs hi.stall).symm.trans (posedge_load_regs (C := C) hi.stall hop)
  rw [posedge_noExcept hi hexc hret, hregs, hsrc]
  simp only [mstatusCSREnable, hcsr, ExceptController.mtvecNext, flopre, flopreInit,
    Bool.and_false, Bool.false_eq_true, if_false]

/-- The port during a load. -/
theorem dmemPort_load (h : coprocessorStall i s = false)
    (hop : opcode (instrMemText C s) = 0b0000011#7) :
    (dmemPort C i s).rden = true ∧ (dmemPort C i s).wren = false ∧
      (dmemPort C i s).address = (loadAddr s (instrMemText C s)).extractLsb' 3 12 := by
  rw [dmemPort_unstalled h, dmAddr_load h hop, ctl_load h hop]
  exact ⟨loadDec_read _ _, rfl, rfl⟩

/-- What a store does to byte `k` of word `a`. -/
theorem posedge_store_byte (hram : C.Altsyncram) (h : coprocessorStall i s = false)
    (hop : opcode (instrMemText C s) = 0b0100011#7) (a : BitVec 12) {k : Nat} (hk : k < 8) :
    byte ((posedge C i s).ram.words a) k =
      if a = (storeAddr s (instrMemText C s)).extractLsb' 3 12 ∧
          ((storeAddr s (instrMemText C s)).extractLsb' 0 3).toNat ≤ k ∧
          k < ((storeAddr s (instrMemText C s)).extractLsb' 0 3).toNat +
            accessBytes (storeSize (funct3 (instrMemText C s)))
      then byte (s.regs (rs2 (instrMemText C s)))
        (k - ((storeAddr s (instrMemText C s)).extractLsb' 0 3).toNat)
      else byte (s.ram.words a) k := by
  have hrow := ctl_store h hop
  have hwren : (ctl C i s).memWrite = true := by rw [hrow]; rfl
  have hwidth : (ctl C i s).memWidth = widthCode (storeSize (funct3 (instrMemText C s))) := by
    rw [hrow]; rfl
  change byte ((C.ramClock s.ram (dmemPort C i s)).words a) k = _
  rw [hram.writes _ _ a k hk, dmemPort_unstalled h]
  simp only [hwren, hwidth, dmAddr_store h hop, memWriteMask_enable _ _ _ hk,
    decide_eq_true_eq, true_and]
  split_ifs with hlane
  · rw [memWriteMask_data _ _ _ hk hlane.2.1]
  · rfl

/-- A store that changes nothing stores what is there. -/
theorem posedge_store_words (hram : C.Altsyncram) (h : coprocessorStall i s = false)
    (hop : opcode (instrMemText C s) = 0b0100011#7) :
    (posedge C i s).ram.words = s.ram.words ↔ ∀ k < 8,
      ((storeAddr s (instrMemText C s)).extractLsb' 0 3).toNat ≤ k →
      k < ((storeAddr s (instrMemText C s)).extractLsb' 0 3).toNat +
        accessBytes (storeSize (funct3 (instrMemText C s))) →
      byte (s.ram.words ((storeAddr s (instrMemText C s)).extractLsb' 3 12)) k =
        byte (s.regs (rs2 (instrMemText C s)))
          (k - ((storeAddr s (instrMemText C s)).extractLsb' 0 3).toNat) := by
  constructor
  · intro hw k hk hge hlt
    rw [← hw, posedge_store_byte hram h hop _ hk, if_pos ⟨rfl, hge, hlt⟩]
  · intro hs
    funext a
    refine ext_byte (n := 8) ?_
    intro k hk
    rw [posedge_store_byte hram h hop a hk]
    split_ifs with hlane
    · rw [hlane.1, hs k hk hlane.2.1 hlane.2.2]
    · rfl

/-! ## Instructions without effect -/

/-- The result of an instruction other than a load: the link address, or what the ALU says. -/
def directResult (C : Chip) (i : Inputs) (s : State) : BitVec 64 :=
  if (ctl C i s).branch = 0b111#3 then s.pc + 4 else dmAddr C i s

theorem exceptSignal_direct (hd : (ctl C i s).toMainDec.Direct) : exceptSignal C i s = 0 := by
  rw [exceptSignal_eq, exceptBits_eq_zero, hd.exceptSignal, hd.memRead, hd.memWrite, Bool.and_false]
  exact ⟨rfl, rfl, rfl⟩

/-- **An instruction that only computes or transfers.** -/
theorem posedge_direct (hram : C.Altsyncram) (hi : Unstalled i s)
    (hd : (ctl C i s).toMainDec.Direct) :
    posedge C i s = { s with
      pc := if pcSrc C i s then (exec C i s).pcBranch else s.pc + 4
      regs := regfileNext (ctl C i s).regWrite (rd (instrMemText C s)) (directResult C i s) s.regs
      cycles := s.cycles + 1
      cycleStallFlag := flopre (!i.stopAt) false i.dataOut s.cycleStallFlag } := by
  have hcsr : csrWriteEnable C i s = false := hd.csrWriteEnable
  have hdata : writeData3 C i s = dmAddr C i s := by
    rw [writeData3, hd.memtoReg, if_neg Bool.false_ne_true]
  have hport : C.ramClock s.ram (dmemPort C i s) = s.ram := by
    refine hram.clock_idle ?_ ?_
    · rw [dmemPort_unstalled hi.stall]; exact hd.memRead
    · rw [dmemPort_unstalled hi.stall]; exact hd.memWrite
  rw [posedge_noExcept hi (exceptSignal_direct hd) hd.trapReturn, hdata, hport]
  simp only [mstatusCSREnable, hcsr, ExceptController.mtvecNext, flopre, flopreInit,
    Bool.and_false, Bool.false_eq_true, if_false]
  rfl

/-- What the instruction writes to registers and memory is there already. -/
structure NoEffect (C : Chip) (i : Inputs) (s : State) : Prop where
  /-- A load finds in `rd` what the RAM shows. -/
  load : opcode (instrMemText C s) = 0b0000011#7 →
    rd (instrMemText C s) = 0 ∨ loadMask C s s.ram.latch = s.regs (rd (instrMemText C s))
  /-- A store finds its bytes in memory. -/
  store : opcode (instrMemText C s) = 0b0100011#7 → ∀ k < 8,
    ((storeAddr s (instrMemText C s)).extractLsb' 0 3).toNat ≤ k →
    k < ((storeAddr s (instrMemText C s)).extractLsb' 0 3).toNat +
      accessBytes (storeSize (funct3 (instrMemText C s))) →
    byte (s.ram.words ((storeAddr s (instrMemText C s)).extractLsb' 3 12)) k =
      byte (s.regs (rs2 (instrMemText C s)))
        (k - ((storeAddr s (instrMemText C s)).extractLsb' 0 3).toNat)
  /-- Any other instruction that writes a register finds its result in `rd`. -/
  result : opcode (instrMemText C s) ≠ 0b0000011#7 → (ctl C i s).regWrite = true →
    rd (instrMemText C s) = 0 ∨ directResult C i s = s.regs (rd (instrMemText C s))

/-- An instruction other than a load writes its direct result. -/
theorem posedge_direct_regs (h : coprocessorStall i s = false)
    (hop : opcode (instrMemText C s) ≠ 0b0000011#7) :
    (posedge C i s).regs = regfileNext (ctl C i s).regWrite (rd (instrMemText C s))
      (directResult C i s) s.regs := by
  have hmem : (ctl C i s).memtoReg = false := by
    rw [ctl_unstalled h, Bool.eq_false_iff]
    exact fun hm => hop (maindec_memtoReg hm)
  rw [posedge_regs h, writeData3, hmem, if_neg Bool.false_ne_true]
  rfl

/-- Without a store the words stay. -/
theorem posedge_not_store_words (hram : C.Altsyncram) (h : coprocessorStall i s = false)
    (hop : opcode (instrMemText C s) ≠ 0b0100011#7) :
    (posedge C i s).ram.words = s.ram.words := by
  refine hram.words_of_not_wren ?_
  rw [dmemPort_unstalled h, ctl_unstalled h, Bool.eq_false_iff]
  exact fun hw => hop (maindec_memWrite hw)

/-- **Frame.** An instruction leaves registers and memory alone exactly when it has no effect. -/
theorem noEffect_iff (hram : C.Altsyncram) (h : coprocessorStall i s = false) :
    (posedge C i s).regs = s.regs ∧ (posedge C i s).ram.words = s.ram.words ↔ NoEffect C i s := by
  by_cases hload : opcode (instrMemText C s) = 0b0000011#7
  · have hstore : opcode (instrMemText C s) ≠ 0b0100011#7 := by rw [hload]; decide
    rw [and_iff_left (posedge_not_store_words hram h hstore), posedge_load_regs h hload,
      regfileNext_eq_self_iff, loadValue_eq hram]
    exact ⟨fun hl => ⟨fun _ => hl, fun hs => absurd hs hstore, fun hn => absurd hload hn⟩,
      fun hn => hn.load hload⟩
  have hresult : (posedge C i s).regs = s.regs ↔ ((ctl C i s).regWrite = true →
      rd (instrMemText C s) = 0 ∨ directResult C i s = s.regs (rd (instrMemText C s))) := by
    rw [posedge_direct_regs h hload]
    cases (ctl C i s).regWrite with
    | false => exact iff_of_true rfl fun hf => absurd hf Bool.false_ne_true
    | true => rw [regfileNext_eq_self_iff]; exact ⟨fun hr _ => hr, fun hr => hr rfl⟩
  rw [hresult]
  by_cases hstore : opcode (instrMemText C s) = 0b0100011#7
  · rw [posedge_store_words hram h hstore]
    exact ⟨fun ⟨hr, hs⟩ => ⟨fun hl => absurd hl hload, fun _ => hs, fun _ => hr⟩,
      fun hn => ⟨hn.result hload, hn.store hstore⟩⟩
  · rw [and_iff_left (posedge_not_store_words hram h hstore)]
    exact ⟨fun hr => ⟨fun hl => absurd hl hload, fun hs => absurd hs hstore, fun _ => hr⟩,
      fun hn => hn.result hload⟩

end Core

end PassiFlo
