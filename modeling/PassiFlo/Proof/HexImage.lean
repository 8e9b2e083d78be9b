import PassiFlo.Lib.IntelHex
import PassiFlo.Soft.HexImage

/-!
# The image is the memory

Every line of `dmem_init` is the record of one word, so the image is described by what
word each address holds: first zero everywhere, then the words of one section after the
other. Read as Intel HEX it gives these words back.
-/

namespace PassiFlo

namespace Soft

open Text IntelHex

/-! ## One record -/

/-- The bytes of a record before its checksum. -/
def recordBytes (k w : ℕ) : List ℕ := 8 :: k / 256 :: k % 256 :: 0 :: bytesOf 8 w

/-- The checksum. -/
def recordCheck (k w : ℕ) : ℕ := (2 ^ 32 - (recordBytes k w).sum) % 256

/-- The line of a word. -/
def imageLine (k w : ℕ) : List Char := ':' :: bytesText (recordBytes k w ++ [recordCheck k w])

/-- The text `hexdump` prints of a word. -/
def wordText (w : ℕ) : List Char := fixed 16 16 w

theorem hex_natCast (n : ℕ) : hex n = '0' :: 'x' :: Nat.toDigits 16 n := by
  unfold hex signed
  rw [if_neg (by omega), Int.natAbs_natCast]

theorem record_eq {k : ℕ} (hk : k < 4096) (w : ℕ) :
    record k (wordText w) = bytesText (recordBytes k w) := by
  have haddress : List.leftpad 4 '0' (hexDigits k)
      = fixed 16 2 (k / 256) ++ fixed 16 2 (k % 256) := by
    have hdigits : hexDigits k = Nat.toDigits 16 k := by
      rw [hexDigits, hex_natCast]
      rfl
    have happend : fixed 16 4 k = fixed 16 2 (k / 256) ++ fixed 16 2 k := fixed_append 2 2 k
    have hlow : fixed 16 2 (k % 256) = fixed 16 2 k := fixed_mod 2 k
    rw [hdigits, leftpad_toDigits (by decide) (by decide) (hk.trans (by decide)), happend, hlow]
  have hdata : wordText w = bytesText (bytesOf 8 w) := (bytesText_bytesOf 8 w).symm
  have hcount : "08".toList = fixed 16 2 8 := by decide
  have hkind : "00".toList = fixed 16 2 0 := by decide
  unfold record
  rw [haddress, hdata, hcount, hkind]
  simp [recordBytes, bytesText]

theorem pairs_bytesText (bytes : List ℕ) : pairs (bytesText bytes) = bytes.map (fixed 16 2) := by
  induction bytes with
  | nil => rfl
  | cons b bytes ih =>
      have hcut : bytesText (b :: bytes)
          = Nat.digitChar (b / 16 % 16) :: Nat.digitChar (b % 16) :: bytesText bytes := rfl
      rw [hcut, pairs, ih]
      rfl

theorem checksum_bytesText {bytes : List ℕ} (hbytes : ∀ b ∈ bytes, b < 256) :
    checksum (bytesText bytes) = some (bytes.sum : ℤ) := by
  have hread : ∀ b ∈ bytes, int 16 ('0' :: 'x' :: fixed 16 2 b) = some (b : ℤ) := by
    intro b hb
    have hdigits : Digits 16 (fixed 16 2 b) := digits_fixed (by decide) (by decide) b
    have hint := hdigits.int_prefixed (r := []) (by simp)
    have hvalue : readDigits 16 (fixed 16 2 b) = some b := by
      have hlt : b < 16 ^ 2 := hbytes b hb
      rw [readDigits_fixed (by decide) (by decide), Nat.mod_eq_of_lt hlt]
    rwa [List.append_nil, hvalue] at hint
  have hmap : (bytes.map (fixed 16 2)).mapM (fun a => int 16 ('0' :: 'x' :: a))
      = some (bytes.map fun b : ℕ => (b : ℤ)) := by
    rw [List.mapM_map]
    exact mapM_eq_map hread
  unfold checksum
  rw [pairs_bytesText, hmap]
  simp

theorem lastTwo_hex {n : ℕ} (hn : 16 ≤ n) : lastTwo (hex n) = fixed 16 2 n := by
  have hsuffix : fixed 16 2 n <:+ Nat.toDigits 16 n := fixed_suffix (by decide) (by omega)
  obtain ⟨s, hs⟩ := hsuffix
  rw [hex_natCast, ← hs, lastTwo]
  have hdrop : ('0' :: 'x' :: (s ++ fixed 16 2 n)).length - 2 = ('0' :: 'x' :: s).length := by
    simp
  rw [hdrop]
  exact List.drop_left

theorem recordBytes_lt {k : ℕ} (hk : k < 4096) (w : ℕ) : ∀ b ∈ recordBytes k w, b < 256 := by
  simp only [recordBytes, List.mem_cons]
  intro b hmem
  rcases hmem with rfl | rfl | rfl | rfl | hb
  · decide
  · omega
  · omega
  · decide
  · exact bytesOf_lt 8 w b hb

/-- Twelve bytes come nowhere near 2^32. -/
theorem recordBytes_sum_le {k : ℕ} (hk : k < 4096) (w : ℕ) : (recordBytes k w).sum ≤ 12 * 255 := by
  have hle := List.sum_le_card_nsmul (recordBytes k w) 255 fun b hb =>
    Nat.le_of_lt_succ (recordBytes_lt hk w b hb)
  simpa [recordBytes] using hle

theorem recordLine_eq {k : ℕ} (hk : k < 4096) (w : ℕ) :
    recordLine k (wordText w) = some (imageLine k w) := by
  have hsum := recordBytes_sum_le hk w
  have hneg : (1 : ℤ) <<< (32 : ℕ) + -((recordBytes k w).sum : ℤ)
      = ((2 ^ 32 - (recordBytes k w).sum : ℕ) : ℤ) := by
    rw [Int.shiftLeft_eq]
    omega
  unfold recordLine
  simp only [record_eq hk, checksum_bytesText (recordBytes_lt hk w), Option.map_some]
  rw [hneg, lastTwo_hex (by omega), ← fixed_mod]
  simp [imageLine, recordCheck, bytesText]

/-- The record of a word is read back. -/
theorem readRecord_imageLine {k : ℕ} (hk : k < 4096) (w : ℕ) :
    readRecord (imageLine k w) = some { address := k, kind := 0, data := bytesOf 8 w } := by
  have hsum := recordBytes_sum_le hk w
  have hread := readRecord_bytesText k 0 (recordCheck k w) (bytesOf_lt 8 w)
    (by simp) (by decide) (by omega) (Nat.mod_lt _ (by decide)) ?_
  · simpa [imageLine, recordBytes] using hread
  · have hlen : (bytesOf 8 w).length = 8 := length_bytesOf 8 w
    have hbytes : (recordBytes k w).sum = 8 + (k / 256 + (k % 256 + (0 + (bytesOf 8 w).sum))) := by
      simp [recordBytes]
    unfold recordCheck
    omega

/-! ## The image of a memory -/

/-- The lines of the words `f`. -/
def image (f : ℕ → ℕ) : List (List Char) := (List.range 4096).map fun k => imageLine k (f k)

/-- Words from `base` on. -/
def blit : List ℕ → ℕ → (ℕ → ℕ) → ℕ → ℕ
  | [], _, f => f
  | w :: ws, base, f => blit ws (base + 1) (Function.update f base w)

theorem blit_outside {ws : List ℕ} {base k : ℕ} {f : ℕ → ℕ}
    (hk : k < base ∨ base + ws.length ≤ k) : blit ws base f k = f k := by
  induction ws generalizing base f with
  | nil => rfl
  | cons w ws ih =>
      rw [List.length_cons] at hk
      rw [blit, ih (by omega), Function.update_of_ne (by omega)]

theorem blit_inside {ws : List ℕ} {i : ℕ} (hi : i < ws.length) (base : ℕ) (f : ℕ → ℕ) :
    blit ws base f (base + i) = ws[i] := by
  induction ws generalizing base i f with
  | nil => exact absurd hi (Nat.not_lt_zero i)
  | cons w ws ih =>
      cases i with
      | zero =>
          rw [blit, blit_outside (by omega)]
          exact Function.update_self ..
      | succ i =>
          have hindex : base + (i + 1) = base + 1 + i := by omega
          rw [blit, hindex]
          exact ih (Nat.lt_of_succ_lt_succ hi) (base + 1) (Function.update f base w)

theorem zeroImage_eq : zeroImage = some (image fun _ => 0) := by
  have hzeros : List.replicate 16 '0' = wordText 0 := (fixed_zero 16).symm
  have hline : ∀ k ∈ List.range 4096,
      recordLine k (List.replicate 16 '0') = some (imageLine k 0) := by
    intro k hk
    rw [hzeros]
    exact recordLine_eq (List.mem_range.mp hk) 0
  exact mapM_eq_map hline

theorem setItem_image {k : ℕ} (hk : k < 4096) (w : ℕ) (f : ℕ → ℕ) :
    setItem (image f) k (imageLine k w) = some (image (Function.update f k w)) := by
  have hset : (image f).set k (imageLine k w) = image (Function.update f k w) := by
    refine List.ext_getElem (by simp [image]) fun j hj _ => ?_
    have hj : j < 4096 := by simpa [image] using hj
    rw [List.getElem_set]
    split
    · rename_i hjk
      simp [image, hjk]
    · rename_i hjk
      simp [image, Function.update_of_ne (Ne.symm hjk)]
  have hlen : (image f).length = 4096 := by simp [image]
  unfold setItem
  have hindex : ¬ ((k : ℤ) < 0) := by omega
  simp only [if_neg hindex, hlen]
  rw [if_pos (by omega), Int.toNat_natCast, hset]

theorem layDown_image (ws : List ℕ) {base : ℕ} (f : ℕ → ℕ) (hfits : base + ws.length ≤ 4096) :
    layDown base (ws.map wordText) (image f) = some (image (blit ws base f)) := by
  induction ws generalizing base f with
  | nil => rfl
  | cons w ws ih =>
      rw [List.length_cons] at hfits
      have hnext : base + 1 + ws.length ≤ 4096 := by omega
      have hrest := ih (Function.update f base w) hnext
      rw [List.map_cons, layDown, recordLine_eq (by omega), Option.bind_eq_bind, Option.bind_some,
        setItem_image (by omega), Option.bind_eq_bind, Option.bind_some]
      exact_mod_cast hrest

/-! ## Sections -/

/-- A `.rodata` section: nonempty, at an aligned address, and inside the data memory. -/
structure Section where
  name : List Char
  address : ℕ
  words : List (BitVec 64)
  nonempty : words ≠ []
  aligned : 8 ∣ address
  fits : address >>> 3 + words.length ≤ 4096

namespace Section

variable (s t : Section)

/-- The word of the memory the section begins at. -/
def base : ℕ := s.address >>> 3

def values : List ℕ := s.words.map BitVec.toNat

/-- The section holds this word of the memory. -/
def Covers (k : ℕ) : Prop := s.base ≤ k ∧ k < s.base + s.words.length

/-- The sections share no word. -/
def Apart : Prop := ∀ k, ¬ (s.Covers k ∧ t.Covers k)

/-- The symbol table lists the section with its address and its name. -/
structure Listed (fields : List (List Char)) : Prop where
  name : fields.getLast? = some s.name
  address : fields[1]?.bind (int 16) = some (s.address : ℤ)

end Section

/-- The words of the memory once the sections are in it. -/
def placed (sections : List Section) (f : ℕ → ℕ) : ℕ → ℕ :=
  sections.foldl (fun f s => blit s.values s.base f) f

theorem placed_outside {sections : List Section} {k : ℕ} {f : ℕ → ℕ}
    (hk : ∀ s ∈ sections, ¬ s.Covers k) : placed sections f k = f k := by
  induction sections generalizing f with
  | nil => rfl
  | cons s sections ih =>
      have hs : ¬ s.Covers k := hk s (List.mem_cons_self ..)
      have hrest := ih (f := blit s.values s.base f) fun t ht => hk t (List.mem_cons_of_mem s ht)
      unfold placed at hrest ⊢
      rw [List.foldl_cons, hrest, blit_outside]
      unfold Section.Covers at hs
      simp only [Section.values, List.length_map]
      omega

theorem placed_inside {sections : List Section} (hapart : sections.Pairwise Section.Apart)
    {s : Section} (hs : s ∈ sections) {i : ℕ} (hi : i < s.words.length) {f : ℕ → ℕ} :
    placed sections f (s.base + i) = s.words[i].toNat := by
  induction sections generalizing f with
  | nil => exact absurd hs List.not_mem_nil
  | cons t sections ih =>
      obtain ⟨hfirst, hrest⟩ := List.pairwise_cons.mp hapart
      rcases List.mem_cons.mp hs with rfl | hs
      · have hcovers : s.Covers (s.base + i) := ⟨Nat.le_add_right .., Nat.add_lt_add_left hi _⟩
        have hout := placed_outside (f := blit s.values s.base f) (k := s.base + i)
          fun u hu hcu => hfirst u hu (s.base + i) ⟨hcovers, hcu⟩
        have hlen : i < s.values.length := by simpa [Section.values] using hi
        have hin := blit_inside hlen s.base f
        unfold placed at hout ⊢
        rw [List.foldl_cons, hout, hin]
        simp [Section.values]
      · exact ih hrest hs

/-! ## The whole image -/

/-- A word of a text of digits is one line without white space. -/
theorem wordText_line (w : ℕ) :
    wordText w ≠ [] ∧ (∀ c ∈ wordText w, isSpace c = false) ∧ '\n' ∉ wordText w := by
  have hdigits : Digits 16 (wordText w) := digits_fixed (by decide) (by decide) w
  exact ⟨hdigits.ne_nil, hdigits.not_space le_rfl, hdigits.not_mem le_rfl (by decide)⟩

theorem newline_not_mem_imageLine (k w : ℕ) : '\n' ∉ imageLine k w := by
  intro h
  rcases List.mem_cons.mp h with h | h
  · exact absurd h (by decide)
  · obtain ⟨b, -, hb⟩ := List.mem_flatMap.mp h
    have hdigits : Digits 16 (fixed 16 2 b) := digits_fixed (by decide) (by decide) b
    exact hdigits.not_mem le_rfl (by decide) hb

theorem hexdump_lines (s : Section) :
    split ['\n'] (strip (hexdump s.words)) = s.values.map wordText := by
  have hne : s.values.map wordText ≠ [] := by simpa [Section.values] using s.nonempty
  have hdump : hexdump s.words = ['\n'].intercalate (s.values.map wordText) ++ ['\n'] := by
    have hword : ∀ w : BitVec 64,
        List.leftpad 16 '0' (Nat.toDigits 16 w.toNat) = wordText w.toNat := by
      intro w
      have hw : w.toNat < 16 ^ 16 := w.isLt
      exact leftpad_toDigits (by decide) (by decide) hw
    rw [← flatMap_append_sep hne]
    simp only [hexdump, hword, Section.values, List.map_map, List.flatMap_map, Function.comp]
  have hline : ∀ line ∈ s.values.map wordText,
      line ≠ [] ∧ (∀ c ∈ line, isSpace c = false) ∧ '\n' ∉ line := by
    intro line hline
    obtain ⟨w, -, rfl⟩ := List.mem_map.mp hline
    exact wordText_line w
  have hnewline : ∀ c ∈ ['\n'], isSpace c = true := by
    simpa using (by decide : isSpace '\n' = true)
  have hstrip : strip (['\n'].intercalate (s.values.map wordText) ++ ['\n'])
      = ['\n'].intercalate (s.values.map wordText) := by
    obtain ⟨first, rest, hcons⟩ := List.exists_cons_of_ne_nil hne
    rw [hcons] at hline ⊢
    obtain ⟨-, hfirst, -⟩ := hline first (List.mem_cons_self ..)
    exact strip_lines (l := []) (fun _ hc => absurd hc List.not_mem_nil)
      (fun c hc => hfirst c (List.mem_of_mem_head? hc))
      (fun line hmem => ⟨(hline line hmem).1, fun c hc =>
        (hline line hmem).2.1 c (List.mem_of_getLast? hc)⟩) hnewline
  rw [hdump, hstrip, split_lines hne fun l hl => (hline l hl).2.2]

theorem addSection_image {dump : List Char → List Char} {s : Section}
    {fields : List (List Char)} (hlisted : s.Listed fields) (hdump : dump s.name = hexdump s.words)
    (f : ℕ → ℕ) :
    addSection dump (image f) fields = some (image (blit s.values s.base f)) := by
  obtain ⟨value, hvalue, haddress⟩ := Option.bind_eq_some_iff.mp hlisted.address
  have hshift : (s.address : ℤ) >>> (3 : ℕ) = (s.base : ℤ) := rfl
  have hfits : s.base + s.values.length ≤ 4096 := by
    simpa [Section.values, Section.base] using s.fits
  unfold addSection
  simp only [hlisted.name, hvalue, haddress, Option.bind_eq_bind, Option.bind_some, hdump,
    hexdump_lines, hshift]
  exact layDown_image s.values f hfits

theorem sections_image {dump : List Char → List Char} {sections : List Section}
    {table : List (List (List Char))}
    (hlisted : List.Forall₂ (fun s fields => s.Listed fields) sections table)
    (hdump : ∀ s ∈ sections, dump s.name = hexdump s.words) (f : ℕ → ℕ) :
    table.foldlM (addSection dump) (image f) = some (image (placed sections f)) := by
  induction hlisted generalizing f with
  | nil => rfl
  | cons hs hrest ih =>
      rw [List.foldlM_cons, addSection_image hs (hdump _ (List.mem_cons_self ..)) f]
      exact ih (fun t ht => hdump t (List.mem_cons_of_mem _ ht)) _

/-- The file of an image. -/
def fileOf (f : ℕ → ℕ) : List Char := ['\n'].intercalate (image f ++ [":00000001ff".toList])

theorem dmemInit_eq {symtab : List Char} {dump : List Char → List Char} {sections : List Section}
    (hlisted : List.Forall₂ (fun s fields => s.Listed fields) sections (rodataSections symtab))
    (hdump : ∀ s ∈ sections, dump s.name = hexdump s.words) :
    dmemInit symtab dump = some (fileOf (placed sections fun _ => 0)) := by
  unfold dmemInit
  rw [zeroImage_eq, Option.bind_eq_bind, Option.bind_some, sections_image hlisted hdump]
  rfl

/-- The record of a word. -/
def wordRecord (k w : ℕ) : Record := { address := k, kind := 0, data := bytesOf 8 w }

theorem readFile_fileOf (f : ℕ → ℕ) :
    readFile (fileOf f)
      = some ((List.range 4096).map (fun k => wordRecord k (f k)) ++ [endOfFile]) := by
  have hline : ∀ line ∈ image f ++ [":00000001ff".toList], '\n' ∉ line := by
    intro line hmem
    rcases List.mem_append.mp hmem with hmem | hmem
    · obtain ⟨k, -, rfl⟩ := List.mem_map.mp hmem
      exact newline_not_mem_imageLine k (f k)
    · rw [List.mem_singleton.mp hmem]
      decide
  have hread : (image f).mapM readRecord
      = some ((List.range 4096).map fun k => wordRecord k (f k)) := by
    unfold image
    rw [List.mapM_map]
    refine mapM_eq_map fun k hk => ?_
    exact readRecord_imageLine (List.mem_range.mp hk) (f k)
  have hend : readRecord ":00000001ff".toList = some endOfFile := by decide +kernel
  unfold readFile fileOf
  rw [split_lines (by simp) hline, List.mapM_append, hread, List.mapM_cons, hend]
  rfl

/--
**The image is the memory.** `dmem_init` reads as one record of eight bytes for each of
the words 0 to 4095 and the end of the file, and these hold the words of the sections at
their addresses and 0 everywhere else. That the sums of the bytes are right is part of
reading them.
-/
theorem dmem_init_round_trip {symtab : List Char} {dump : List Char → List Char}
    {sections : List Section}
    (hlisted : List.Forall₂ (fun s fields => s.Listed fields) sections (rodataSections symtab))
    (hdump : ∀ s ∈ sections, dump s.name = hexdump s.words)
    (hapart : sections.Pairwise Section.Apart) :
    ∃ text records, dmemInit symtab dump = some text ∧
      readFile text = some (records ++ [endOfFile]) ∧
      records.map Record.address = List.range 4096 ∧
      (∀ r ∈ records, r.kind = 0 ∧ r.data.length = 8) ∧
      (∀ s ∈ sections, ∀ i, ∀ hi : i < s.words.length,
        memory records (s.address >>> 3 + i) = some s.words[i].toNat) ∧
      ∀ k < 4096, (∀ s ∈ sections, ¬ s.Covers k) → memory records k = some 0 := by
  let words : ℕ → ℕ := placed sections fun _ => 0
  have hmemory : ∀ k, memory ((List.range 4096).map fun k => wordRecord k (words k)) k
      = if k < 4096 then some (words k % 256 ^ 8) else none := by
    intro k
    rw [memory_range (fun _ => rfl) fun _ => rfl, wordRecord, wordOf_bytesOf]
  refine ⟨fileOf words, (List.range 4096).map fun k => wordRecord k (words k),
    dmemInit_eq hlisted hdump, readFile_fileOf words, ?_, ?_, ?_, ?_⟩
  · rw [List.map_map]
    exact List.map_id _
  · intro r hr
    obtain ⟨k, -, rfl⟩ := List.mem_map.mp hr
    exact ⟨rfl, length_bytesOf 8 _⟩
  · intro s hs i hi
    have hlt : s.address >>> 3 + i < 4096 := (Nat.add_lt_add_left hi _).trans_le s.fits
    have hword : words (s.address >>> 3 + i) = s.words[i].toNat := placed_inside hapart hs hi
    have hw : s.words[i].toNat < 256 ^ 8 := s.words[i].isLt
    rw [hmemory, if_pos hlt, hword, Nat.mod_eq_of_lt hw]
  · intro k hk hout
    have hzero : words k = 0 := placed_outside hout
    rw [hmemory, if_pos hk, hzero]
    rfl

/-- Two words at address 0x80. -/
def rodataSection : Section where
  name := ".rodata".toList
  address := 0x80
  words := [0x1234, 0xffffffffffffffff]
  nonempty := by decide
  aligned := by decide
  fits := by decide

/-- One word behind them. -/
def stringSection : Section where
  name := ".rodata.str1.8".toList
  address := 0x90
  words := [0x6f6c6c6568]
  nonempty := by decide
  aligned := by decide
  fits := by decide

def sampleSections : List Section := [rodataSection, stringSection]

/-- A symbol table that lists both. -/
def sampleSymtab : List Char :=
  "   Num:    Value          Size Type    Bind   Vis      Ndx Name\n".toList ++
    "     1: 0000000000000080     0 SECTION LOCAL  DEFAULT    2 .rodata\n".toList ++
    "     2: 0000000000000090     0 SECTION LOCAL  DEFAULT    3 .rodata.str1.8\n".toList

/-- What `hexdump` prints of either. -/
def sampleDump (name : List Char) : List Char :=
  hexdump (if name = rodataSection.name then rodataSection.words else stringSection.words)

theorem dmem_init_sample :
    ∃ text records, dmemInit sampleSymtab sampleDump = some text ∧
      readFile text = some (records ++ [endOfFile]) ∧
      records.map Record.address = List.range 4096 ∧
      (∀ r ∈ records, r.kind = 0 ∧ r.data.length = 8) ∧
      (∀ s ∈ sampleSections, ∀ i, ∀ hi : i < s.words.length,
        memory records (s.address >>> 3 + i) = some s.words[i].toNat) ∧
      ∀ k < 4096, (∀ s ∈ sampleSections, ¬ s.Covers k) → memory records k = some 0 := by
  have htable : rodataSections sampleSymtab
      = [["1:".toList, "0000000000000080".toList, "0".toList, "SECTION".toList, "LOCAL".toList,
        "DEFAULT".toList, "2".toList, ".rodata".toList],
        ["2:".toList, "0000000000000090".toList, "0".toList, "SECTION".toList, "LOCAL".toList,
        "DEFAULT".toList, "3".toList, ".rodata.str1.8".toList]] := by
    decide +kernel
  have hlisted : List.Forall₂ (fun s fields => s.Listed fields) sampleSections
      (rodataSections sampleSymtab) := by
    rw [htable]
    refine List.Forall₂.cons ⟨?_, ?_⟩ (List.Forall₂.cons ⟨?_, ?_⟩ List.Forall₂.nil)
    all_goals decide +kernel
  have hapart : rodataSection.Apart stringSection := by
    intro k hk
    have hbelow : k < 0x80 >>> 3 + 2 := hk.1.2
    have habove : 0x90 >>> 3 ≤ k := hk.2.1
    omega
  refine dmem_init_round_trip hlisted ?_ (List.pairwise_pair.mpr hapart)
  intro s hs
  rcases List.mem_pair.mp hs with rfl | rfl
  · rfl
  · exact congrArg hexdump (if_neg (by decide))

end Soft

end PassiFlo
