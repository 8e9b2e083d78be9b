import PassiFlo.Proof.LoadStore

/-!
# Data memory is a byte array

Seen from the instruction set, data memory is 32768 bytes and a store puts its bytes
down one after the other. Seen from the chip it is 4096 words with byte enables, a
mask generator and a shifter, written by the program and by the host. The two agree
as long as no access leaves its 8-byte word, over any run and from any contents.
-/

namespace PassiFlo

open Lanes Clocked

/-! ## The specification -/

/-- One write to the byte array. -/
structure Access where
  addr : BitVec 15
  bytes : Nat
  data : BitVec 64
  deriving DecidableEq

/-- What a cycle that performs the given access, or none, does to the byte array. -/
def Access.apply (m : ByteMem 15) : Option Access → ByteMem 15
  | none => m
  | some x => m.store x.addr x.bytes x.data

/-- The value a load returns: `lb`, `lh`, `lw`, `ld`, `lbu`, `lhu`, `lwu`. -/
def loadResult (funct3 : BitVec 3) (m : ByteMem 15) (addr : BitVec 15) : BitVec 64 :=
  match funct3 with
  | 0b000#3 => m.loadS 64 addr 1
  | 0b001#3 => m.loadS 64 addr 2
  | 0b010#3 => m.loadS 64 addr 4
  | 0b100#3 => m.loadU 64 addr 1
  | 0b101#3 => m.loadU 64 addr 2
  | 0b110#3 => m.loadU 64 addr 4
  | _ => m.loadS 64 addr 8

/-! ## The read side -/

/-- The bits `readMask` keeps. -/
theorem readMask_widthCode : ∀ (f : BitVec 2) (k : Fin 64),
    (rep 32 ((widthCode f).getLsbD 2) ++ rep 16 ((widthCode f).getLsbD 1) ++
      rep 8 ((widthCode f).getLsbD 0) ++ 0xff#8).getLsbD k =
        decide (k.val < 8 * accessBytes f) := by
  decide +kernel

theorem width_cases : ∀ f : BitVec 2, f = 0b00#2 ∨ f = 0b01#2 ∨ f = 0b10#2 ∨ f = 0b11#2 := by
  decide

section Read

variable (words : BitVec 12 → BitVec 64) (addr : BitVec 15)

/-- The addressed word, moved down to its lane. -/
def shifted : BitVec 64 :=
  words (addr.extractLsb' 3 12) >>> (addr.extractLsb' 0 3 ++ 0#3 : BitVec 6).toNat

theorem shifted_extract {n : Nat} (hn : (addr.extractLsb' 0 3).toNat + n ≤ 8) :
    (shifted words addr).extractLsb' 0 (8 * n) = (ByteMem.ofWords words).loadU (8 * n) addr n := by
  refine BitVec.eq_of_getLsbD_eq ?_
  intro k hk
  rw [ByteMem.ofWords_loadU_getLsbD words hn, BitVec.getLsbD_extractLsb', shifted, shiftAmount,
    BitVec.getLsbD_ushiftRight, Nat.zero_add]
  simp [hk]

/-- Masking the shifted word is the unsigned load. -/
theorem mask_shifted {f : BitVec 2}
    (hn : (addr.extractLsb' 0 3).toNat + accessBytes f ≤ 8) :
    (rep 32 ((widthCode f).getLsbD 2) ++ rep 16 ((widthCode f).getLsbD 1) ++
      rep 8 ((widthCode f).getLsbD 0) ++ 0xff#8) &&& shifted words addr =
        (ByteMem.ofWords words).loadU 64 addr (accessBytes f) := by
  refine BitVec.eq_of_getLsbD_eq ?_
  intro k hk
  rw [BitVec.getLsbD_and, readMask_widthCode f ⟨k, hk⟩, ByteMem.ofWords_loadU_getLsbD words hn,
    shifted, shiftAmount, BitVec.getLsbD_ushiftRight]
  simp [hk]

theorem memReadMask_unsigned {f : BitVec 2}
    (hn : (addr.extractLsb' 0 3).toNat + accessBytes f ≤ 8) :
    memReadMask (words (addr.extractLsb' 3 12)) false (widthCode f) (addr.extractLsb' 0 3) =
      (ByteMem.ofWords words).loadU 64 addr (accessBytes f) := by
  have hop : ∀ w : BitVec 3, BitVec.ofBool false ++ w ≠ 0b1011#4 ∧
      BitVec.ofBool false ++ w ≠ 0b1001#4 ∧ BitVec.ofBool false ++ w ≠ 0b1000#4 := by decide
  obtain ⟨h4, h2, h1⟩ := hop (widthCode f)
  rw [← mask_shifted words addr hn]
  simp only [memReadMask, h4, h2, h1, if_false]
  rfl

/-- Replicating the top bit of the bytes read is the signed load. -/
theorem extend_shifted {n m : Nat} (hpos : 0 < n)
    (hn : (addr.extractLsb' 0 3).toNat + n ≤ 8) :
    rep m ((shifted words addr).getLsbD (8 * n - 1)) ++ (shifted words addr).extractLsb' 0 (8 * n) =
      (ByteMem.ofWords words).loadS (m + 8 * n) addr n := by
  have htop : (shifted words addr).getLsbD (8 * n - 1) =
      ((shifted words addr).extractLsb' 0 (8 * n)).getLsbD (8 * n - 1) := by
    rw [BitVec.getLsbD_extractLsb', Nat.zero_add]
    simp [hpos]
  rw [htop, rep_append_eq_signExtend, shifted_extract words addr hn]
  rfl

theorem memReadMask_signed {f : BitVec 2}
    (hn : (addr.extractLsb' 0 3).toNat + accessBytes f ≤ 8) :
    memReadMask (words (addr.extractLsb' 3 12)) true (widthCode f) (addr.extractLsb' 0 3) =
      (ByteMem.ofWords words).loadS 64 addr (accessBytes f) := by
  rcases width_cases f with rfl | rfl | rfl | rfl
  · exact extend_shifted words addr (n := 1) (m := 56) (by decide) hn
  · exact extend_shifted words addr (n := 2) (m := 48) (by decide) hn
  · exact extend_shifted words addr (n := 4) (m := 32) (by decide) hn
  · -- a double needs no extension
    have hfull : (ByteMem.ofWords words).loadS 64 addr (accessBytes 0b11#2) =
        (ByteMem.ofWords words).loadU 64 addr (accessBytes 0b11#2) := BitVec.signExtend_eq _
    rw [hfull, ← mask_shifted words addr hn]
    rfl

/-- **The read side.** What `memReadMask` makes of the addressed word, as decoded. -/
theorem memReadMask_load (f3 : BitVec 3)
    (hn : (addr.extractLsb' 0 3).toNat + accessBytes (loadSize f3) ≤ 8) :
    memReadMask (words (addr.extractLsb' 3 12)) (loadSigned f3) (widthCode (loadSize f3))
      (addr.extractLsb' 0 3) = loadResult f3 (ByteMem.ofWords words) addr := by
  rcases funct3_cases f3 with rfl | rfl | rfl | rfl | rfl | rfl | rfl | rfl
  case inr.inr.inr.inr.inl => exact memReadMask_unsigned words addr hn
  case inr.inr.inr.inr.inr.inl => exact memReadMask_unsigned words addr hn
  case inr.inr.inr.inr.inr.inr.inl => exact memReadMask_unsigned words addr hn
  all_goals exact memReadMask_signed words addr hn

end Read

/-! ## The write side -/

/-- Addresses are taken modulo the size of the memory. -/
theorem setWidth_word (x : BitVec 64) :
    (x.setWidth 15).extractLsb' 3 12 = x.extractLsb' 3 12 := by
  refine BitVec.eq_of_getLsbD_eq ?_
  intro k hk
  simp [hk, show 3 + k < 15 by omega]

theorem setWidth_lane (x : BitVec 64) : (x.setWidth 15).extractLsb' 0 3 = x.extractLsb' 0 3 := by
  refine BitVec.eq_of_getLsbD_eq ?_
  intro k hk
  simp [hk, show k < 15 by omega]

namespace Core

variable {C : Chip} {i : Inputs} {s : State}

/-- The write of a cycle: the host's, if it asks for one, or else the store executed. -/
def access (C : Chip) (i : Inputs) (s : State) : Option Access :=
  if i.memWe then some { addr := i.addr, bytes := 8, data := i.dataOut }
  else if coprocessorStall i s = false ∧ opcode (instrMemText C s) = 0b0100011#7 then
    some
      { addr := (storeAddr s (instrMemText C s)).setWidth 15
        bytes := accessBytes (storeSize (funct3 (instrMemText C s)))
        data := s.regs (rs2 (instrMemText C s)) }
  else none

/-- The write of the cycle, if any, stays in its 8-byte word. -/
def WithinWord (C : Chip) (i : Inputs) (s : State) : Prop :=
  ∀ x ∈ access C i (settle i s), (x.addr.extractLsb' 0 3).toNat + x.bytes ≤ 8

instance (C : Chip) (i : Inputs) (s : State) : Decidable (WithinWord C i s) :=
  inferInstanceAs (Decidable (∀ x ∈ access C i (settle i s), _))

/-- A host write: the port enables the lanes from the offset up. -/
theorem posedge_host_byte (hram : C.Altsyncram) (hwe : i.memWe = true) (a : BitVec 12) {k : Nat}
    (hk : k < 8) :
    byte ((posedge C i s).ram.words a) k =
      if a = i.addr.extractLsb' 3 12 ∧ (i.addr.extractLsb' 0 3).toNat ≤ k ∧
          k < (i.addr.extractLsb' 0 3).toNat + 8
      then byte i.dataOut (k - (i.addr.extractLsb' 0 3).toNat) else byte (s.ram.words a) k := by
  have hport : (dmemPort C i s).wren = true ∧ (dmemPort C i s).address = i.addr.extractLsb' 3 12 ∧
      (dmemPort C i s).byteena =
        (memWriteMask (i.addr.extractLsb' 0 3) (widthCode 0b11#2) i.dataOut).1 ∧
      (dmemPort C i s).data =
        (memWriteMask (i.addr.extractLsb' 0 3) (widthCode 0b11#2) i.dataOut).2 := by
    simp only [dmemPort, hwe, Bool.or_true, Bool.true_or, if_true, true_and]
    exact ⟨rfl, rfl⟩
  obtain ⟨hwren, haddr, hbe, hdata⟩ := hport
  change byte ((C.ramClock s.ram (dmemPort C i s)).words a) k = _
  rw [hram.writes _ _ a k hk, hwren, haddr, hbe, hdata, memWriteMask_enable _ _ _ hk]
  simp only [true_and, decide_eq_true_eq, show accessBytes 0b11#2 = 8 from rfl]
  split_ifs with hlane
  · exact memWriteMask_data _ _ _ hk hlane.2.1
  · rfl

/-- **The write step.** A cycle does to the byte array what its access says. -/
theorem posedge_access (hram : C.Altsyncram)
    (hin : ∀ x ∈ access C i s, (x.addr.extractLsb' 0 3).toNat + x.bytes ≤ 8) :
    ByteMem.ofWords (posedge C i s).ram.words =
      Access.apply (ByteMem.ofWords s.ram.words) (access C i s) := by
  by_cases hwe : i.memWe = true
  · have hacc : access C i s = some { addr := i.addr, bytes := 8, data := i.dataOut } := if_pos hwe
    rw [hacc]
    exact ByteMem.ofWords_store (hin _ hacc) fun a k hk => posedge_host_byte hram hwe a hk
  by_cases hst : coprocessorStall i s = false ∧ opcode (instrMemText C s) = 0b0100011#7
  · have hacc : access C i s = some
        { addr := (storeAddr s (instrMemText C s)).setWidth 15
          bytes := accessBytes (storeSize (funct3 (instrMemText C s)))
          data := s.regs (rs2 (instrMemText C s)) } := by
      rw [access, if_neg hwe, if_pos hst]
    rw [hacc]
    refine ByteMem.ofWords_store (hin _ hacc) fun a k hk => ?_
    rw [posedge_store_byte hram hst.1 hst.2 a hk, setWidth_word, setWidth_lane]
  · -- nobody writes
    have hacc : access C i s = none := by rw [access, if_neg hwe, if_neg hst]
    have hwren : (dmemPort C i s).wren = false := by
      cases hc : coprocessorStall i s with
      | true => rw [(dmemPort_stalled hc).2]; exact Bool.eq_false_iff.mpr hwe
      | false =>
          rw [dmemPort_unstalled hc, ctl_unstalled hc, Bool.eq_false_iff]
          exact fun hw => hst ⟨hc, maindec_memWrite hw⟩
    rw [hacc]
    exact congrArg ByteMem.ofWords (hram.words_of_not_wren hwren)

/-! ## Misalignment -/

/-- The two bits of `except_E` that can be up. -/
theorem exceptSignalE_bits :
    (exceptSignalE C i s).getLsbD 0 = (crosses C i s && (ctl C i s).memRead.getLsbD 0) ∧
      (exceptSignalE C i s).getLsbD 2 = (crosses C i s && (ctl C i s).memWrite) := by
  have hpack : ∀ store load : Bool,
      (0b0000#4 ++ BitVec.ofBool store ++ 0#1 ++ BitVec.ofBool load).getLsbD 0 = load ∧
        (0b0000#4 ++ BitVec.ofBool store ++ 0#1 ++ BitVec.ofBool load).getLsbD 2 = store := by
    decide
  have hop : ∀ (b : Bool) (m : BitVec 2),
      (BitVec.ofBool b ++ m.extractLsb' 0 1).getLsbD 0 = m.getLsbD 0 ∧
        (BitVec.ofBool b ++ m.extractLsb' 0 1).getLsbD 1 = b := by decide
  obtain ⟨h0, h2⟩ := hpack (crosses C i s && (ctl C i s).memWrite)
    (crosses C i s && (ctl C i s).memRead.getLsbD 0)
  obtain ⟨ho0, ho1⟩ := hop (ctl C i s).memWrite (ctl C i s).memRead
  rw [exceptSignalE, exceptE, ho0, ho1]
  exact ⟨h0, h2⟩

/-- Load misalignment, from the address and the width. -/
theorem exceptSignalE_load (h : coprocessorStall i s = false) :
    (exceptSignalE C i s).getLsbD 0 = true ↔ opcode (instrMemText C s) = 0b0000011#7 ∧
      8 < ((loadAddr s (instrMemText C s)).extractLsb' 0 3).toNat +
        accessBytes (loadSize (funct3 (instrMemText C s))) := by
  rw [exceptSignalE_bits.1, Bool.and_eq_true]
  constructor
  · intro hloaded
    obtain ⟨hc, hr⟩ := hloaded
    have hop : opcode (instrMemText C s) = 0b0000011#7 := by
      rw [ctl_unstalled h] at hr; exact maindec_memRead hr
    rw [crosses_load h hop] at hc
    exact ⟨hop, of_decide_eq_true hc⟩
  · intro hspilled
    obtain ⟨hop, hspill⟩ := hspilled
    rw [crosses_load h hop, ctl_load h hop, loadDec_read]
    exact ⟨decide_eq_true hspill, rfl⟩

/-- Store misalignment, from the address and the width. -/
theorem exceptSignalE_store (h : coprocessorStall i s = false) :
    (exceptSignalE C i s).getLsbD 2 = true ↔ opcode (instrMemText C s) = 0b0100011#7 ∧
      8 < ((storeAddr s (instrMemText C s)).extractLsb' 0 3).toNat +
        accessBytes (storeSize (funct3 (instrMemText C s))) := by
  rw [exceptSignalE_bits.2, Bool.and_eq_true]
  constructor
  · intro hstored
    obtain ⟨hc, hw⟩ := hstored
    have hop : opcode (instrMemText C s) = 0b0100011#7 := by
      rw [ctl_unstalled h] at hw; exact maindec_memWrite hw
    rw [crosses_store h hop] at hc
    exact ⟨hop, of_decide_eq_true hc⟩
  · intro hspilled
    obtain ⟨hop, hspill⟩ := hspilled
    rw [crosses_store h hop, ctl_store h hop]
    exact ⟨decide_eq_true hspill, rfl⟩

/-! ## Whole runs -/

/-- The byte array after a run: its accesses, applied in order. -/
def byteArray (C : Chip) (is : List Inputs) (s : State) : ByteMem 15 :=
  (trace (cycle C) (fun i s => access C i (settle i s)) is s).foldl Access.apply
    (ByteMem.ofWords s.ram.words)

/--
**Data memory refines a byte array.** After any run whose writes stay in their words,
the RAM represents the byte array those writes make, a load that stays in its word
reads its value from that array, and `except_E` reports exactly the accesses that do
not stay in their word.
-/
theorem dataMem_refines (hram : C.Altsyncram) (is : List Inputs) (s : State)
    (hin : Along C (WithinWord C) is s) :
    ByteMem.ofWords (run C is s).ram.words = byteArray C is s ∧
      (∀ (f3 : BitVec 3) (f12 : BitVec 12) (addr : BitVec 64),
        (addr.extractLsb' 0 3).toNat + accessBytes (loadSize f3) ≤ 8 →
        memReadMask ((run C is s).ram.words (addr.extractLsb' 3 12))
            ((maindec false 0b0000011#7 f3 f12).memRead.getLsbD 1)
            (maindec false 0b0000011#7 f3 f12).memWidth (addr.extractLsb' 0 3) =
          loadResult f3 (byteArray C is s) (addr.setWidth 15)) ∧
      ∀ i, coprocessorStall i (run C is s) = false →
        ((exceptSignalE C i (run C is s)).getLsbD 0 = true ↔
          opcode (instrMemText C (run C is s)) = 0b0000011#7 ∧
          8 < ((loadAddr (run C is s) (instrMemText C (run C is s))).extractLsb' 0 3).toNat +
            accessBytes (loadSize (funct3 (instrMemText C (run C is s))))) ∧
        ((exceptSignalE C i (run C is s)).getLsbD 2 = true ↔
          opcode (instrMemText C (run C is s)) = 0b0100011#7 ∧
          8 < ((storeAddr (run C is s) (instrMemText C (run C is s))).extractLsb' 0 3).toNat +
            accessBytes (storeSize (funct3 (instrMemText C (run C is s))))) := by
  have hmem : ByteMem.ofWords (run C is s).ram.words = byteArray C is s :=
    run_refines (f := fun t : State => ByteMem.ofWords t.ram.words)
      (fun i t h => posedge_access (C := C) (i := i) (s := settle i t) hram h) is s hin
  refine ⟨hmem, ?_, fun i h => ⟨exceptSignalE_load h, exceptSignalE_store h⟩⟩
  intro f3 f12 addr hn
  rw [maindec_load, loadDec_signed, ← hmem, ← setWidth_word, ← setWidth_lane]
  rw [← setWidth_lane] at hn
  exact memReadMask_load _ _ f3 hn

/-- `addi x1, x0, -1`, `sw x1, 4(x0)`. -/
def halfWordStore : Chip := Chip.ofProgram [0xfff00093#32, 0x00102223#32]

/-- The two instructions, then a host write of word 1. -/
def halfWordCycles : List Inputs :=
  [Inputs.idle, Inputs.idle, { Inputs.idle with control := 0b00010#5, addr := 8, dataOut := 7 }]

/-- The word a `lwu` at 4 reads after the store. -/
theorem dataMem_refines_store :
    memReadMask ((run halfWordStore halfWordCycles (State.released (fun _ => 0) 0)).ram.words 0)
      false 0b011#3 4 =
        loadResult 0b110#3 (byteArray halfWordStore halfWordCycles (State.released (fun _ => 0) 0))
          4 := by
  refine (dataMem_refines (C := halfWordStore) (Chip.ofProgram_altsyncram _) halfWordCycles
    (State.released (fun _ => 0) 0)
    ⟨by decide +kernel, by decide +kernel, by decide +kernel, trivial⟩).2.1 0b110#3 0 4 (by decide)

end Core

end PassiFlo
