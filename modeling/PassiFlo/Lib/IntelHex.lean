import PassiFlo.Lib.Numeral

/-!
# Intel HEX

A line is a record: a colon and bytes as two digits each. The bytes are a count, a 16-bit
address with its high byte first, a kind, as many bytes of data as the count says, and a
checksum that makes all of them sum to 0 modulo 256. Here an address counts whole words,
and a record of kind 0 holds one, with its high byte first.

Nothing here mentions a particular program.
-/

namespace IntelHex

open Text

/-- The count of a record is the length of its data. -/
structure Record where
  address : ℕ
  kind : ℕ
  data : List ℕ
  deriving DecidableEq

/-- The record that ends a file. -/
def endOfFile : Record := { address := 0, kind := 1, data := [] }

/-! ## Reading -/

def readBytes : List Char → Option (List ℕ)
  | a :: b :: s => (readDigits 16 [a, b]).bind fun n => (readBytes s).map (n :: ·)
  | [] => some []
  | _ => none

/-- A record of bytes that sum to 0. -/
def ofBytes (bytes : List ℕ) : Option Record :=
  if bytes.sum % 256 = 0 then
    match bytes with
    | count :: high :: low :: kind :: rest =>
        if rest.length = count + 1 then
          some { address := 256 * high + low, kind, data := rest.dropLast }
        else none
    | _ => none
  else none

def readRecord : List Char → Option Record
  | ':' :: s => (readBytes s).bind ofBytes
  | _ => none

def readFile (text : List Char) : Option (List Record) := (split ['\n'] text).mapM readRecord

/-- The number whose bytes these are, the high byte first. -/
def wordOf (data : List ℕ) : ℕ := data.foldl (fun n byte => 256 * n + byte) 0

/-- What a record does to the memory. -/
def Record.apply (m : ℕ → Option ℕ) (r : Record) : ℕ → Option ℕ :=
  if r.kind = 0 then Function.update m r.address (some (wordOf r.data)) else m

/-- The memory a file describes. -/
def memory (records : List Record) : ℕ → Option ℕ := records.foldl Record.apply fun _ => none

/-! ## Writing -/

/-- The `k` low bytes of a number, the high one first. -/
def bytesOf : ℕ → ℕ → List ℕ
  | 0, _ => []
  | k + 1, n => bytesOf k (n / 256) ++ [n % 256]

def bytesText (bytes : List ℕ) : List Char := bytes.flatMap (fixed 16 2)

section Bytes

variable {k n : ℕ} {bytes : List ℕ}

@[simp] theorem length_bytesOf (k n : ℕ) : (bytesOf k n).length = k := by
  induction k generalizing n with
  | zero => rfl
  | succ k ih => simp [bytesOf, ih]

theorem bytesOf_lt (k n : ℕ) : ∀ b ∈ bytesOf k n, b < 256 := by
  induction k generalizing n with
  | zero => simp [bytesOf]
  | succ k ih =>
      intro b hb
      rcases List.mem_append.mp hb with hb | hb
      · exact ih (n / 256) b hb
      · rw [List.mem_singleton.mp hb]
        exact Nat.mod_lt n (by decide)

theorem wordOf_bytesOf (k n : ℕ) : wordOf (bytesOf k n) = n % 256 ^ k := by
  induction k generalizing n with
  | zero => simp [bytesOf, wordOf, Nat.mod_one]
  | succ k ih =>
      have hconcat : wordOf (bytesOf (k + 1) n) = 256 * wordOf (bytesOf k (n / 256)) + n % 256 := by
        simp [bytesOf, wordOf]
      rw [hconcat, ih, Nat.pow_succ', Nat.mod_mul, Nat.add_comm]

/-- Two digits for every byte. -/
theorem bytesText_bytesOf (k n : ℕ) : bytesText (bytesOf k n) = fixed 16 (2 * k) n := by
  induction k generalizing n with
  | zero => rfl
  | succ k ih =>
      have hlow : fixed 16 2 (n % 256) = fixed 16 2 n := fixed_mod 2 n
      have hsplit : fixed 16 (2 * k + 2) n = fixed 16 (2 * k) (n / 16 ^ 2) ++ fixed 16 2 n :=
        fixed_append (2 * k) 2 n
      rw [Nat.mul_succ, hsplit, ← ih, ← hlow]
      simp [bytesOf, bytesText]

theorem readBytes_bytesText (hbytes : ∀ b ∈ bytes, b < 256) :
    readBytes (bytesText bytes) = some bytes := by
  induction bytes with
  | nil => rfl
  | cons b bytes ih =>
      have hb : readDigits 16 (fixed 16 2 b) = some b := by
        rw [readDigits_fixed (by decide) (by decide), Nat.mod_eq_of_lt]
        exact hbytes b (List.mem_cons_self ..)
      have hrest := ih fun c hc => hbytes c (List.mem_cons_of_mem b hc)
      have hcut : bytesText (b :: bytes)
          = Nat.digitChar (b / 16 % 16) :: Nat.digitChar (b % 16) :: bytesText bytes := rfl
      rw [hcut, readBytes, hrest]
      have hdigits : readDigits 16 [Nat.digitChar (b / 16 % 16), Nat.digitChar (b % 16)]
          = some b := hb
      rw [hdigits]
      rfl

/-- A record whose checksum is right is read. -/
theorem readRecord_bytesText (address kind checksum : ℕ) {data : List ℕ}
    (hdata : ∀ b ∈ data, b < 256) (hcount : data.length < 256) (hkind : kind < 256)
    (haddress : address < 65536) (hchecksum : checksum < 256)
    (hsum : (data.length + address / 256 + address % 256 + kind + data.sum + checksum) % 256 = 0) :
    readRecord (':' :: bytesText
      (data.length :: address / 256 :: address % 256 :: kind :: (data ++ [checksum])))
      = some { address, kind, data } := by
  have hbytes : ∀ b ∈ data.length :: address / 256 :: address % 256 :: kind :: (data ++ [checksum]),
      b < 256 := by
    simp only [List.mem_cons, List.mem_append, List.not_mem_nil, or_false]
    intro b hmem
    rcases hmem with rfl | rfl | rfl | rfl | hb | rfl
    · exact hcount
    · omega
    · omega
    · exact hkind
    · exact hdata b hb
    · exact hchecksum
  have htotal : (data.length :: address / 256 :: address % 256 :: kind :: (data ++ [checksum])).sum
      % 256 = 0 := by
    simp only [List.sum_cons, List.sum_append, List.sum_nil]
    omega
  have haddr : 256 * (address / 256) + address % 256 = address := Nat.div_add_mod address 256
  rw [readRecord, readBytes_bytesText hbytes, Option.bind_some, ofBytes, if_pos htotal]
  simp [haddr]

/-! ## Memories -/

/-- The memory of records for the addresses from 0 on. -/
theorem memory_range {records : ℕ → Record} {n : ℕ}
    (hkind : ∀ k, (records k).kind = 0) (haddress : ∀ k, (records k).address = k) (k : ℕ) :
    memory ((List.range n).map records) k
      = if k < n then some (wordOf (records k).data) else none := by
  induction n with
  | zero => rfl
  | succ n ih =>
      have hlast : memory ((List.range (n + 1)).map records)
          = (records n).apply (memory ((List.range n).map records)) := by
        simp [memory, List.range_succ]
      rw [hlast, Record.apply, if_pos (hkind n), haddress]
      by_cases hk : k = n
      · rw [hk, Function.update_self, if_pos (Nat.lt_succ_self n)]
      · rw [Function.update_of_ne hk, ih]
        have hiff : k < n ↔ k < n + 1 := by omega
        simp only [hiff]

end Bytes

end IntelHex
