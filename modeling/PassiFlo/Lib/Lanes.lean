import Mathlib

/-!
# Byte lanes and little-endian memories

A machine word seen as eight byte lanes, a byte-addressed memory over a power-of-two
address space, and the number that consecutive bytes spell in little-endian order.
-/

namespace Lanes

/-- Byte `k` of a word. -/
def byte {n : Nat} (w : BitVec n) (k : Nat) : BitVec 8 := w.extractLsb' (8 * k) 8

theorem byte_getLsbD {n : Nat} (w : BitVec n) (k i : Nat) (hi : i < 8) :
    (byte w k).getLsbD i = w.getLsbD (8 * k + i) := by
  simp [byte, hi]

/-- Words are equal when their bytes are. -/
theorem ext_byte {n : Nat} {x y : BitVec (8 * n)} (h : ∀ k < n, byte x k = byte y k) : x = y := by
  refine BitVec.eq_of_getLsbD_eq ?_
  intro i hi
  have hk := congrArg (fun b => b.getLsbD (i % 8)) (h (i / 8) (by omega))
  simp only [byte_getLsbD _ _ _ (Nat.mod_lt i (by decide : 8 > 0))] at hk
  rwa [Nat.div_add_mod] at hk

/-- Shifting left by whole bytes moves the lanes up. -/
theorem byte_shiftLeft {n : Nat} (w : BitVec n) {o k : Nat} (hk : 8 * (k + 1) ≤ n) (ho : o ≤ k) :
    byte (w <<< (8 * o)) k = byte w (k - o) := by
  refine BitVec.eq_of_getLsbD_eq ?_
  intro i hi
  rw [byte_getLsbD _ _ _ hi, byte_getLsbD _ _ _ hi, BitVec.getLsbD_shiftLeft,
    show 8 * k + i - 8 * o = 8 * (k - o) + i by omega]
  have h1 : 8 * k + i < n := by omega
  have h2 : ¬ 8 * k + i < 8 * o := by omega
  simp [h1, h2]

/-! ## Little-endian values -/

/-- The number whose bytes, least significant first, are `f 0, …, f (n - 1)`. -/
def leNat (f : Nat → BitVec 8) : Nat → Nat
  | 0 => 0
  | n + 1 => leNat f n + 2 ^ (8 * n) * (f n).toNat

theorem leNat_lt (f : Nat → BitVec 8) (n : Nat) : leNat f n < 2 ^ (8 * n) := by
  induction n with
  | zero => simp [leNat]
  | succ n ih =>
      have hf := (f n).isLt
      have hp : 2 ^ (8 * (n + 1)) = 2 ^ (8 * n) * 2 ^ 8 := by rw [Nat.mul_succ, Nat.pow_add]
      have hm : 2 ^ (8 * n) * ((f n).toNat + 1) ≤ 2 ^ (8 * n) * 2 ^ 8 :=
        Nat.mul_le_mul_left _ hf
      rw [leNat, hp]
      rw [Nat.mul_succ] at hm
      omega

theorem leNat_testBit (f : Nat → BitVec 8) (n i : Nat) :
    (leNat f n).testBit i = (decide (i < 8 * n) && (f (i / 8)).getLsbD (i % 8)) := by
  induction n with
  | zero => simp [leNat]
  | succ n ih =>
      rw [leNat, Nat.add_comm, Nat.testBit_two_pow_mul_add _ (leNat_lt f n)]
      by_cases hi : i < 8 * n
      · rw [if_pos hi, ih]
        simp [hi, show i < 8 * (n + 1) by omega]
      · rw [if_neg hi, BitVec.testBit_toNat]
        by_cases hi' : i < 8 * (n + 1)
        · rw [show i / 8 = n by omega, show i - 8 * n = i % 8 by omega]
          simp [hi']
        · rw [BitVec.getLsbD_of_ge _ _ (by omega : 8 ≤ i - 8 * n)]
          simp [hi']

/-! ## Byte memories -/

/-- A memory of `2 ^ a` bytes. -/
abbrev ByteMem (a : Nat) := BitVec a → BitVec 8

namespace ByteMem

variable {a : Nat}

/-- Write the low `n` bytes of `data` at `addr`, least significant first. -/
def store (m : ByteMem a) (addr : BitVec a) (n : Nat) {w : Nat} (data : BitVec w) : ByteMem a :=
  fun x => if (x - addr).toNat < n then byte data (x - addr).toNat else m x

/-- The `n` bytes at `addr` as an unsigned number of `w` bits. -/
def loadU (m : ByteMem a) (w : Nat) (addr : BitVec a) (n : Nat) : BitVec w :=
  BitVec.ofNat w (leNat (fun k => m (addr + BitVec.ofNat a k)) n)

/-- The `n` bytes at `addr` as a two's complement number, sign extended to `w` bits. -/
def loadS (m : ByteMem a) (w : Nat) (addr : BitVec a) (n : Nat) : BitVec w :=
  (m.loadU (8 * n) addr n).signExtend w

theorem loadU_getLsbD (m : ByteMem a) (w : Nat) (addr : BitVec a) (n i : Nat) :
    (m.loadU w addr n).getLsbD i =
      (decide (i < w) && (decide (i < 8 * n) &&
        (m (addr + BitVec.ofNat a (i / 8))).getLsbD (i % 8))) := by
  rw [loadU, BitVec.getLsbD_ofNat, leNat_testBit]

/-! ### Word memories as byte memories -/

/-- The bytes of a memory of 64-bit words. -/
def ofWords (words : BitVec a → BitVec 64) : ByteMem (a + 3) :=
  fun x => byte (words (x.extractLsb' 3 a)) (x.extractLsb' 0 3).toNat

/-- The bytes tell the words. -/
theorem ofWords_inj {words words' : BitVec a → BitVec 64} :
    ofWords words = ofWords words' ↔ words = words' := by
  refine ⟨fun h => ?_, congrArg ofWords⟩
  funext y
  refine ext_byte (n := 8) ?_
  intro k hk
  have hbyte := congrFun h (y ++ BitVec.ofNat 3 k)
  have hword : (y ++ BitVec.ofNat 3 k).extractLsb' 3 a = y := BitVec.extractLsb'_append_eq_left
  have hlane : ((y ++ BitVec.ofNat 3 k).extractLsb' 0 3).toNat = k := by
    rw [BitVec.extractLsb'_append_eq_right, BitVec.toNat_ofNat, Nat.mod_eq_of_lt (by omega)]
  rw [ofWords, ofWords, hword, hlane] at hbyte
  exact hbyte

theorem toNat_split (x : BitVec (a + 3)) :
    x.toNat = 8 * (x.extractLsb' 3 a).toNat + (x.extractLsb' 0 3).toNat := by
  have hx := x.isLt
  have hp : 2 ^ (a + 3) = 8 * 2 ^ a := by rw [Nat.pow_add, Nat.mul_comm]
  have hdiv : x.toNat / 8 < 2 ^ a := Nat.div_lt_of_lt_mul (by omega)
  rw [BitVec.extractLsb'_toNat, BitVec.extractLsb'_toNat, Nat.shiftRight_eq_div_pow,
    Nat.shiftRight_zero, Nat.mod_eq_of_lt (by simpa using hdiv)]
  exact (Nat.div_add_mod _ _).symm

/-- Addresses are equal when word and lane are. -/
theorem split_inj {x y : BitVec (a + 3)} (h3 : x.extractLsb' 3 a = y.extractLsb' 3 a)
    (h0 : (x.extractLsb' 0 3).toNat = (y.extractLsb' 0 3).toNat) : x = y := by
  refine BitVec.eq_of_toNat_eq ?_
  rw [toNat_split x, toNat_split y, h3, h0]

/-- Moving inside a word. -/
theorem extract_add {x : BitVec (a + 3)} {k : Nat} (hk : (x.extractLsb' 0 3).toNat + k < 8) :
    (x + BitVec.ofNat (a + 3) k).extractLsb' 3 a = x.extractLsb' 3 a ∧
      ((x + BitVec.ofNat (a + 3) k).extractLsb' 0 3).toNat = (x.extractLsb' 0 3).toNat + k := by
  have hp : 2 ^ (a + 3) = 8 * 2 ^ a := by rw [Nat.pow_add, Nat.mul_comm]
  have hpos : 0 < 2 ^ a := Nat.two_pow_pos a
  have hhi := (x.extractLsb' 3 a).isLt
  have hsum : (x + BitVec.ofNat (a + 3) k).toNat =
      8 * (x.extractLsb' 3 a).toNat + ((x.extractLsb' 0 3).toNat + k) := by
    rw [BitVec.toNat_add, BitVec.toNat_ofNat, toNat_split x, Nat.mod_eq_of_lt (a := k) (by omega),
      Nat.mod_eq_of_lt (by omega)]
    omega
  have hsplit := toNat_split (x + BitVec.ofNat (a + 3) k)
  have hlo := ((x + BitVec.ofNat (a + 3) k).extractLsb' 0 3).isLt
  refine ⟨BitVec.eq_of_toNat_eq (by omega), by omega⟩

theorem ofWords_add (words : BitVec a → BitVec 64) {x : BitVec (a + 3)} {k : Nat}
    (hk : (x.extractLsb' 0 3).toNat + k < 8) :
    ofWords words (x + BitVec.ofNat (a + 3) k) =
      byte (words (x.extractLsb' 3 a)) ((x.extractLsb' 0 3).toNat + k) := by
  rw [ofWords, (extract_add hk).1, (extract_add hk).2]

/-- An address is within `n` bytes after `x`, in the same word, exactly when its lane is. -/
theorem sub_lt_iff {x y : BitVec (a + 3)} {n : Nat} (hn : (x.extractLsb' 0 3).toNat + n ≤ 8) :
    (y - x).toNat < n ↔ y.extractLsb' 3 a = x.extractLsb' 3 a ∧
      (x.extractLsb' 0 3).toNat ≤ (y.extractLsb' 0 3).toNat ∧
      (y.extractLsb' 0 3).toNat < (x.extractLsb' 0 3).toNat + n := by
  constructor
  · intro h
    have hy : y = x + BitVec.ofNat (a + 3) (y - x).toNat := by
      rw [BitVec.ofNat_toNat, BitVec.setWidth_eq, BitVec.add_comm, BitVec.sub_add_cancel]
    obtain ⟨h3, h0⟩ := extract_add (x := x) (k := (y - x).toNat) (by omega)
    rw [← hy] at h3 h0
    exact ⟨h3, by omega, by omega⟩
  · intro hlane
    obtain ⟨h3, hge, hlt⟩ := hlane
    have hlo := (y.extractLsb' 0 3).isLt
    obtain ⟨k, hk⟩ : ∃ k, (y.extractLsb' 0 3).toNat = (x.extractLsb' 0 3).toNat + k :=
      ⟨_, (Nat.add_sub_cancel' hge).symm⟩
    obtain ⟨h3', h0'⟩ := extract_add (x := x) (k := k) (by omega)
    have hy : y = x + BitVec.ofNat (a + 3) k := split_inj (by rw [h3, h3']) (by rw [h0', hk])
    have hp : 2 ^ (a + 3) = 8 * 2 ^ a := by rw [Nat.pow_add, Nat.mul_comm]
    have hpos : 0 < 2 ^ a := Nat.two_pow_pos a
    rw [hy, BitVec.add_comm, BitVec.add_sub_cancel, BitVec.toNat_ofNat, Nat.mod_eq_of_lt (by omega)]
    omega

/--
**A lane write is a store.** Writing lanes `o` to `o + n` of one word, and nothing
else, is the byte store at the address made of that word and lane.
-/
theorem ofWords_store {words words' : BitVec a → BitVec 64} {x : BitVec (a + 3)} {n : Nat}
    {data : BitVec 64} (hn : (x.extractLsb' 0 3).toNat + n ≤ 8)
    (h : ∀ y k, k < 8 → byte (words' y) k =
      if y = x.extractLsb' 3 a ∧ (x.extractLsb' 0 3).toNat ≤ k ∧ k < (x.extractLsb' 0 3).toNat + n
      then byte data (k - (x.extractLsb' 0 3).toNat) else byte (words y) k) :
    ofWords words' = (ofWords words).store x n data := by
  funext y
  have hlo := (y.extractLsb' 0 3).isLt
  rw [store, ofWords, h _ _ hlo]
  by_cases hy : (y - x).toNat < n
  · have hlane := (sub_lt_iff hn).mp hy
    -- the lane written is the distance from `x`
    have hback : y = x + BitVec.ofNat (a + 3) (y - x).toNat := by
      rw [BitVec.ofNat_toNat, BitVec.setWidth_eq, BitVec.add_comm, BitVec.sub_add_cancel]
    obtain ⟨-, h0⟩ := extract_add (x := x) (k := (y - x).toNat) (by omega)
    rw [← hback] at h0
    rw [if_pos hlane, if_pos hy, h0, Nat.add_sub_cancel_left]
  · rw [if_neg (fun hc => hy ((sub_lt_iff hn).mpr hc)), if_neg hy]
    rfl

/-- A store of a whole word. -/
theorem ofWords_store_word {words : BitVec a → BitVec 64} {x : BitVec (a + 3)}
    (hx : x.extractLsb' 0 3 = 0) (v : BitVec 64) :
    (ofWords words).store x 8 v = ofWords (Function.update words (x.extractLsb' 3 a) v) := by
  have hlane : (x.extractLsb' 0 3).toNat = 0 := by rw [hx]; rfl
  refine (ofWords_store (by omega) ?_).symm
  intro y k hk
  rw [hlane]
  by_cases hy : y = x.extractLsb' 3 a
  · rw [hy, Function.update_self, if_pos ⟨rfl, Nat.zero_le k, by omega⟩, Nat.sub_zero]
  · rw [Function.update_of_ne hy, if_neg fun h => hy h.1]

/-- **A lane read is a load.** The bits of `n` bytes read from inside one word. -/
theorem ofWords_loadU_getLsbD (words : BitVec a → BitVec 64) {x : BitVec (a + 3)} {n : Nat}
    (hn : (x.extractLsb' 0 3).toNat + n ≤ 8) (w i : Nat) :
    ((ofWords words).loadU w x n).getLsbD i =
      (decide (i < w) && (decide (i < 8 * n) &&
        (words (x.extractLsb' 3 a)).getLsbD (8 * (x.extractLsb' 0 3).toNat + i))) := by
  rw [loadU_getLsbD]
  by_cases hi : i < 8 * n
  · have hlane : (x.extractLsb' 0 3).toNat + i / 8 < 8 := by omega
    rw [ofWords_add words hlane, byte_getLsbD _ _ _ (Nat.mod_lt i (by decide)),
      show 8 * ((x.extractLsb' 0 3).toNat + i / 8) + i % 8 =
        8 * (x.extractLsb' 0 3).toNat + i by omega]
  · simp [hi]

end ByteMem

end Lanes
