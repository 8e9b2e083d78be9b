import PassiFlo.Soft.RunLog

/-!
# What is printed is what is plotted

The values of a run pass through three texts. A field is a name, a colon and a number,
none of which holds anything that separates fields, words, lines or runs; so every split
finds the parts that were joined, and what is left is that each number reads as itself.
-/

namespace PassiFlo

namespace Soft

open Text

/-! ## `%x` -/

section PrintHex

variable {v : BitVec 32} {shift : ℕ}

theorem masked_toNat (hshift : shift < 8) :
    (masked v shift).toNat = v.toNat &&& (15 <<< (4 * shift)) := by
  have hpow : 2 ^ (4 * shift) ≤ 2 ^ 28 := Nat.pow_le_pow_right (by decide) (by omega)
  have hlt : 15 <<< (4 * shift) < 2 ^ 32 := by
    rw [Nat.shiftLeft_eq]
    omega
  unfold masked
  rw [BitVec.toNat_and, BitVec.toNat_shiftLeft]
  exact congrArg (v.toNat &&& ·) (Nat.mod_eq_of_lt hlt)

/-- The digit the mask leaves, in its place. -/
theorem masked_eq (hshift : shift < 8) :
    (masked v shift).toNat = 2 ^ (4 * shift) * (v.toNat / 16 ^ shift % 16) := by
  have hpow : 16 ^ shift = 2 ^ (4 * shift) := (Nat.pow_mul 2 4 shift).symm
  have hdiv : (v.toNat &&& (15 <<< (4 * shift))) / 2 ^ (4 * shift)
      = v.toNat / 2 ^ (4 * shift) % 16 := by
    have hmask : 15 <<< (4 * shift) >>> (4 * shift) = 15 := Nat.shiftLeft_shiftRight 15 _
    rw [← Nat.shiftRight_eq_div_pow, Nat.shiftRight_and_distrib, hmask, Nat.shiftRight_eq_div_pow]
    exact Nat.and_two_pow_sub_one_eq_mod _ 4
  have hmod : (v.toNat &&& (15 <<< (4 * shift))) % 2 ^ (4 * shift) = 0 := by
    rw [Nat.and_mod_two_pow, Nat.shiftLeft_eq, Nat.mul_mod_left, Nat.and_zero]
  rw [masked_toNat hshift, hpow, ← hdiv]
  have hsplit := Nat.div_add_mod (v.toNat &&& (15 <<< (4 * shift))) (2 ^ (4 * shift))
  rw [hmod, Nat.add_zero] at hsplit
  exact hsplit.symm

theorem digitText_eq {d : ℕ} (hd : d < 16) : digitText d = Nat.digitChar d := by
  have hall : ∀ d : Fin 16, digitText d = Nat.digitChar d := by decide
  exact hall ⟨d, hd⟩

theorem digit_eq (hshift : shift < 8) :
    digitText (masked v shift >>> (4 * shift)).toNat
      = Nat.digitChar (v.toNat / 16 ^ shift % 16) := by
  have hdigit : (masked v shift >>> (4 * shift)).toNat = v.toNat / 16 ^ shift % 16 := by
    rw [BitVec.toNat_ushiftRight, masked_eq hshift, Nat.shiftRight_eq_div_pow,
      Nat.mul_div_cancel_left _ (Nat.two_pow_pos _)]
  rw [hdigit, digitText_eq (Nat.mod_lt _ (by decide))]

theorem printDigits_eq (hshift : shift < 8) :
    printDigits v shift = fixed 16 (shift + 1) v.toNat := by
  induction shift with
  | zero =>
      have h := digit_eq (v := v) hshift
      rw [Nat.pow_zero, Nat.div_one] at h
      exact congrArg (fun c => [c]) h
  | succ shift ih =>
      have hhead := digit_eq (v := v) hshift
      have hsplit : fixed 16 (1 + (shift + 1)) v.toNat = _ := fixed_append 1 (shift + 1) v.toNat
      rw [Nat.add_comm 1] at hsplit
      rw [printDigits, ih (by omega), hhead, hsplit]
      rfl

/-- The loop stops at the first digit. -/
theorem digitShift_spec (hv : v ≠ 0) (hshift : shift < 8) (hlt : v.toNat < 16 ^ (shift + 1)) :
    digitShift v shift < 8 ∧ 16 ^ digitShift v shift ≤ v.toNat ∧
      v.toNat < 16 ^ (digitShift v shift + 1) := by
  induction shift with
  | zero =>
      have hpos : v.toNat ≠ 0 := fun h => hv (BitVec.eq_of_toNat_eq h)
      exact ⟨hshift, Nat.one_le_iff_ne_zero.mpr hpos, hlt⟩
  | succ shift ih =>
      rw [digitShift]
      have hdigit := masked_eq (v := v) hshift
      have htop : v.toNat / 16 ^ (shift + 1) < 16 := Nat.div_lt_of_lt_mul (by rwa [← Nat.pow_succ])
      split
      · rename_i hzero
        have hnone : v.toNat / 16 ^ (shift + 1) % 16 = 0 := by
          rw [hzero] at hdigit
          exact (Nat.mul_eq_zero.mp hdigit.symm).resolve_left (Nat.two_pow_pos _).ne'
        rw [Nat.mod_eq_of_lt htop] at hnone
        exact ih (by omega) (Nat.lt_of_div_eq_zero (Nat.pow_pos (by decide)) hnone)
      · rename_i hne
        refine ⟨hshift, ?_, hlt⟩
        by_contra hsmall
        have hnone : v.toNat / 16 ^ (shift + 1) = 0 := Nat.div_eq_of_lt (Nat.not_le.mp hsmall)
        rw [hnone] at hdigit
        exact hne (BitVec.eq_of_toNat_eq hdigit)

/-- `%x` prints no leading zeros. -/
theorem printHex_eq (v : BitVec 32) : printHex v = Nat.toDigits 16 v.toNat := by
  unfold printHex
  split
  · rename_i hv
    rw [hv]
    rfl
  · rename_i hv
    have hwidth : v.toNat < 16 ^ (7 + 1) := v.isLt
    obtain ⟨hshift, hle, hlt⟩ := digitShift_spec hv (by decide) hwidth
    rw [printDigits_eq hshift, toDigits_eq_fixed (by decide) hle hlt]

end PrintHex

/-! ## The line of a run -/

/-- `name:value`. -/
def named (name value : List Char) : List Char := name ++ ':' :: value

/-- `0x%x_%x` of a 64-bit value. -/
def halves (v : BitVec 64) : List Char :=
  '0' :: 'x' :: (printHex (v.extractLsb' 32 32) ++ '_' :: printHex (v.extractLsb' 0 32))

/-- The result as it is printed. -/
def Run.resultText (run : Run) : List Char :=
  if run.watchdog > run.programMaxDuration then "dnf".toList else halves run.result

/-- The fields of the report. -/
def Run.fields (run : Run) : List (List Char) :=
  [named "PC(injected)".toList (halves run.injectedPc),
    named "current_val(injected)".toList (halves run.currentVal),
    named "new_val(injected)".toList (halves run.newVal),
    named "PC".toList (halves run.pc),
    named "result(reg a0)".toList run.resultText,
    named "duration".toList ('0' :: 'x' :: printHex run.watchdog)]

/-- A word of the dump as it is printed, without its comma. -/
def Run.wordLine (run : Run) (k : Fin 4096) : List Char :=
  named ('0' :: 'x' :: Nat.toDigits 16 k)
    ('0' :: 'x' :: (printHex ((run.memory k).extractLsb' 32 32)
      ++ '_' :: '0' :: 'x' :: printHex ((run.memory k).extractLsb' 0 32)))

/-- What is no conversion is printed as it stands. -/
theorem altPrintf_append {s : List Char} (hs : '%' ∉ s) (fmt : List Char) (args : List Arg) :
    altPrintf (s ++ fmt) args = (altPrintf fmt args).map (s ++ ·) := by
  induction s with
  | nil => simp
  | cons c s ih =>
      have hc : c ≠ '%' := (List.ne_of_not_mem_cons hs).symm
      have hrest := ih (List.not_mem_of_not_mem_cons hs)
      have hstep : altPrintf (c :: (s ++ fmt)) args = (altPrintf (s ++ fmt) args).map (c :: ·) := by
        rw [altPrintf]
        · intro h _
          exact hc h
        · intro d fmt' h _
          exact hc h
      rw [List.cons_append, hstep, hrest, Option.map_map]
      rfl

theorem printHalves_eq (v : BitVec 64) :
    altPrintf ":0x%x_%x,".toList (ports v) = some (':' :: (halves v ++ [','])) := by
  have hprint : altPrintf ":0x%x_%x,".toList (ports v)
      = some (':' :: '0' :: 'x' :: (printHex (v.extractLsb' 32 32)
        ++ ('_' :: (printHex (v.extractLsb' 0 32) ++ [','])))) := rfl
  rw [hprint]
  simp [halves]

theorem printField_eq (name : List Char) (hname : '%' ∉ name) (v : BitVec 64) :
    altPrintf (name ++ ":0x%x_%x,".toList) (ports v) = some (named name (halves v) ++ [',']) := by
  rw [altPrintf_append hname, printHalves_eq]
  simp [named]

section Report

variable (run : Run)

theorem printResult_eq :
    run.printResult = some (named "result(reg a0)".toList run.resultText ++ [',']) := by
  unfold Run.printResult Run.resultText
  split
  · rfl
  · exact printField_eq "result(reg a0)".toList (by decide) run.result

theorem printWord_eq (k : Fin 4096) : run.printWord k = some (run.wordLine k ++ [',']) := by
  have hk : (BitVec.ofNat 32 (8 * k.val) >>> 3).toNat = k.val := by
    have hlt : 8 * k.val < 2 ^ 32 := by omega
    rw [BitVec.toNat_ushiftRight, BitVec.toNat_ofNat, Nat.mod_eq_of_lt hlt,
      Nat.shiftRight_eq_div_pow]
    omega
  have hindex : printHex (BitVec.ofNat 32 (8 * k.val) >>> 3) = Nat.toDigits 16 k := by
    rw [printHex_eq, hk]
  have hprint : run.printWord k
      = some ('0' :: 'x' :: (printHex (BitVec.ofNat 32 (8 * k.val) >>> 3)
        ++ (':' :: '0' :: 'x' :: (printHex ((run.memory k).extractLsb' 32 32)
        ++ ('_' :: '0' :: 'x' :: (printHex ((run.memory k).extractLsb' 0 32) ++ [','])))))) :=
    rfl
  rw [hprint, hindex]
  simp [Run.wordLine, named]

/-- The report is the fields, the mark, and the words of the memory. -/
theorem report_eq :
    run.report = some ([','].intercalate run.fields ++ ("||memdump||".toList
      ++ (((List.finRange 4096).map run.wordLine).flatMap (· ++ [',']) ++ ['\n']))) := by
  have hinjected : altPrintf "PC(injected):0x%x_%x,".toList (ports run.injectedPc) = _ :=
    printField_eq "PC(injected)".toList (by decide) run.injectedPc
  have hcurrent : altPrintf "current_val(injected):0x%x_%x,".toList (ports run.currentVal) = _ :=
    printField_eq "current_val(injected)".toList (by decide) run.currentVal
  have hnew : altPrintf "new_val(injected):0x%x_%x,".toList (ports run.newVal) = _ :=
    printField_eq "new_val(injected)".toList (by decide) run.newVal
  have hpc : altPrintf "PC:0x%x_%x,".toList (ports run.pc) = _ :=
    printField_eq "PC".toList (by decide) run.pc
  have hduration : altPrintf "duration:0x%x".toList [.word run.watchdog]
      = some (named "duration".toList ('0' :: 'x' :: (printHex run.watchdog ++ []))) := rfl
  have hdump : (List.finRange 4096).mapM run.printWord
      = some ((List.finRange 4096).map fun k => run.wordLine k ++ [',']) :=
    mapM_eq_map fun k _ => printWord_eq run k
  have hmark : altPrintf "||memdump||".toList [] = some "||memdump||".toList := rfl
  have hnewline : altPrintf ['\n'] [] = some ['\n'] := rfl
  unfold Run.report
  simp only [hinjected, hcurrent, hnew, hpc, printResult_eq, hduration, hdump, hmark, hnewline,
    Option.bind_eq_bind, Option.bind_some]
  simp [Run.fields, List.flatMap, Function.comp_def]

end Report

/-! ## Texts without separators -/

/-- None of the characters that separate fields, words, lines or runs. -/
def plain (c : Char) : Bool := ['|', ',', ':', '\n', 'm'].all (· != c)

theorem not_mem_of_plain {s : List Char} (hs : s.all plain = true) {c : Char}
    (hc : c ∈ ['|', ',', ':', '\n', 'm']) : c ∉ s := by
  intro hmem
  exact absurd rfl (bne_iff_ne.mp (List.all_eq_true.mp (List.all_eq_true.mp hs c hmem) c hc))

theorem plain_of_digits {base : ℕ} {s : List Char} (hs : Digits base s) (hbase : base ≤ 16) :
    s.all plain = true := by
  refine List.all_eq_true.mpr fun c hc => ?_
  obtain ⟨d, hd, rfl⟩ := hs.digits c hc
  have hall : ∀ d : Fin 16, plain (Nat.digitChar d) = true := by decide
  exact hall ⟨d, hd.trans_le hbase⟩

theorem digits_printHex (v : BitVec 32) : Digits 16 (printHex v) := by
  rw [printHex_eq]
  exact digits_toDigits (by decide) v.toNat

theorem readDigits_printHex (v : BitVec 32) : readDigits 16 (printHex v) = some v.toNat := by
  rw [printHex_eq]
  exact readDigits_toDigits (by decide) (by decide) v.toNat

/-- The prefix is plain too. -/
theorem plain_prefixed {s : List Char} (hs : s.all plain = true) :
    ('0' :: 'x' :: s).all plain = true := by
  have h0 : plain '0' = true := by decide
  have hx : plain 'x' = true := by decide
  rw [List.all_cons, List.all_cons, h0, hx, hs]
  rfl

theorem int_digits {base n : ℕ} {s r : List Char} (hs : Digits base s) (hbase : base ≤ 16)
    (hread : readDigits base s = some n) (hr : ∀ c ∈ r, isSpace c = true) :
    int base (s ++ r) = some (n : ℤ) := by
  rw [hs.int hbase hr, hread]
  rfl

theorem int_prefixed {n : ℕ} {s : List Char} (hs : Digits 16 s)
    (hread : readDigits 16 s = some n) : int 16 ('0' :: 'x' :: s) = some (n : ℤ) := by
  have h := hs.int_prefixed (r := []) (fun _ hc => absurd hc List.not_mem_nil)
  rw [hread, List.append_nil] at h
  exact h

/-! ## The rewritten line -/

/-- A word of the dump as it is saved. -/
def Run.savedWord (run : Run) (k : Fin 4096) : List Char :=
  named (List.leftpad 4 ' ' (Nat.toDigits 10 k)) ('0' :: 'x' :: fixed 16 16 (run.memory k).toNat)

theorem hex08_natCast {n : ℕ} (hn : n < 16 ^ 8) : hex08 n = fixed 16 8 n := by
  unfold hex08
  rw [if_neg (by omega), Int.natAbs_natCast, leftpad_toDigits (by decide) (by decide) hn]

theorem toNat_halves (v : BitVec 64) :
    v.toNat = (v.extractLsb' 32 32).toNat * 2 ^ 32 + (v.extractLsb' 0 32).toNat := by
  have hv := v.isLt
  simp only [BitVec.extractLsb'_toNat, Nat.shiftRight_eq_div_pow]
  omega

theorem hex08_halves (v : BitVec 64) :
    hex08 (v.extractLsb' 32 32).toNat ++ hex08 (v.extractLsb' 0 32).toNat
      = fixed 16 16 v.toNat := by
  have hhigh : (v.extractLsb' 32 32).toNat = v.toNat / 16 ^ 8 := by
    have hv := v.isLt
    simp only [BitVec.extractLsb'_toNat, Nat.shiftRight_eq_div_pow]
    omega
  have hlow : (v.extractLsb' 0 32).toNat = v.toNat % 16 ^ 8 := by
    simp only [BitVec.extractLsb'_toNat, Nat.shiftRight_zero]
    rfl
  rw [hex08_natCast (v.extractLsb' 32 32).isLt, hex08_natCast (v.extractLsb' 0 32).isLt, hhigh,
    hlow, fixed_mod]
  exact (fixed_append 8 8 v.toNat).symm

theorem split_named {name value : List Char} (hname : name.all plain = true)
    (hvalue : value.all plain = true) : split [':'] (named name value) = [name, value] := by
  unfold named
  rw [split_cons_append (not_mem_of_plain hname (by simp)),
    split_of_not_mem (not_mem_of_plain hvalue (by simp))]

/-- A field holds no separator but its colon. -/
theorem named_not_mem {name value : List Char} (hname : name.all plain = true)
    (hvalue : value.all plain = true) {c : Char} (hc : c ∈ ['|', ',', '\n', 'm']) :
    c ∉ named name value := by
  have hplain : c ∈ ['|', ',', ':', '\n', 'm'] ∧ c ≠ ':' := by
    fin_cases hc <;> decide
  unfold named
  simp only [List.mem_append, List.mem_cons, not_or]
  exact ⟨not_mem_of_plain hname hplain.1, hplain.2, not_mem_of_plain hvalue hplain.1⟩

theorem split_halves {high low : List Char} (hhigh : '_' ∉ high) (hlow : '_' ∉ low) :
    split ['_'] (high ++ '_' :: low) = [high, low] := by
  rw [split_cons_append hhigh, split_of_not_mem hlow]

theorem underscore_not_mem {s : List Char} (hs : Digits 16 s) : '_' ∉ '0' :: 'x' :: s := by
  simpa using hs.not_mem (c := '_') le_rfl (by decide)

theorem plain_halves {high low : List Char} (hhigh : high.all plain = true)
    (hlow : low.all plain = true) : (high ++ '_' :: low).all plain = true := by
  have hunderscore : plain '_' = true := by decide
  rw [List.all_append, List.all_cons, hhigh, hunderscore, hlow]
  rfl

section Word

variable (run : Run) (k : Fin 4096)

/-- The index and the two halves of the word of a line. -/
theorem wordLine_eq :
    ∃ high low, run.wordLine k = named ('0' :: 'x' :: Nat.toDigits 16 k)
        ('0' :: 'x' :: high ++ '_' :: '0' :: 'x' :: low) ∧
      Digits 16 high ∧ Digits 16 low ∧
      readDigits 16 high = some ((run.memory k).extractLsb' 32 32).toNat ∧
      readDigits 16 low = some ((run.memory k).extractLsb' 0 32).toNat :=
  ⟨_, _, rfl, digits_printHex _, digits_printHex _, readDigits_printHex _, readDigits_printHex _⟩

theorem plain_index : ('0' :: 'x' :: Nat.toDigits 16 k).all plain = true :=
  plain_prefixed (plain_of_digits (digits_toDigits (by decide) k) le_rfl)

theorem plain_data {high low : List Char} (hhigh : Digits 16 high) (hlow : Digits 16 low) :
    ('0' :: 'x' :: high ++ '_' :: '0' :: 'x' :: low).all plain = true :=
  plain_halves (plain_prefixed (plain_of_digits hhigh le_rfl))
    (plain_prefixed (plain_of_digits hlow le_rfl))

theorem parseWord_wordLine : parseWord (run.wordLine k) = some (run.savedWord k) := by
  obtain ⟨high, low, hline, hhigh, hlow, hreadh, hreadl⟩ := wordLine_eq run k
  have hk : int 16 ('0' :: 'x' :: Nat.toDigits 16 k) = some (k.val : ℤ) :=
    int_prefixed (digits_toDigits (by decide) k) (readDigits_toDigits le_rfl (by decide) _)
  have hwidth : width4 (k.val : ℤ) = List.leftpad 4 ' ' (Nat.toDigits 10 k) := by
    unfold width4 signed
    rw [if_neg (by omega), Int.natAbs_natCast]
  rw [hline, parseWord]
  simp only [split_named (plain_index k) (plain_data hhigh hlow),
    split_halves (underscore_not_mem hhigh) (underscore_not_mem hlow), hk,
    int_prefixed hhigh hreadh, int_prefixed hlow hreadl, Option.bind_eq_bind, Option.bind_some,
    hwidth, hex08_halves]
  simp [Run.savedWord, named]

theorem wordLine_not_mem {c : Char} (hc : c ∈ ['|', ',', '\n', 'm']) : c ∉ run.wordLine k := by
  obtain ⟨high, low, hline, hhigh, hlow, -⟩ := wordLine_eq run k
  rw [hline]
  exact named_not_mem (plain_index k) (plain_data hhigh hlow) hc

end Word

/-! ## What a field reads as -/

/-- A field from which `parse_run` takes a number. -/
def Reads (field : List Char) (n : ℤ) : Prop :=
  ∃ name value, field = named name value ∧ name.all plain = true ∧ value.all plain = true ∧
    parseNum value = some n

theorem Reads.parseElem {field : List Char} {n : ℤ} (h : Reads field n) :
    parseElem field = some n := by
  obtain ⟨name, value, rfl, hname, hvalue, hn⟩ := h
  unfold Soft.parseElem
  rw [split_named hname hvalue]
  exact hn

theorem Reads.not_mem {field : List Char} {n : ℤ} (h : Reads field n) {c : Char}
    (hc : c ∈ ['|', ',', '\n', 'm']) : c ∉ field := by
  obtain ⟨name, value, rfl, hname, hvalue, -⟩ := h
  exact named_not_mem hname hvalue hc

theorem mapM_parseElem {fields : List (List Char)} {ns : List ℤ}
    (h : List.Forall₂ Reads fields ns) : fields.mapM parseElem = some ns := by
  induction h with
  | nil => rfl
  | cons hf hrest ih =>
      rw [List.mapM_cons, hf.parseElem, ih]
      rfl

section Values

variable {name : List Char}

theorem parseNum_halves (v : BitVec 64) : parseNum (halves v) = some (v.toNat : ℤ) := by
  have hprefix : "0x".toList <:+: halves v := (List.prefix_append ['0', 'x'] _).isInfix
  have hhigh := digits_printHex (v.extractLsb' 32 32)
  have hlow := digits_printHex (v.extractLsb' 0 32)
  have hsplit : split ['_'] (halves v) = _ :=
    split_halves (underscore_not_mem hhigh) (hlow.not_mem le_rfl (by decide))
  have hlowint := int_digits (r := []) hlow le_rfl (readDigits_printHex _) (by simp)
  rw [List.append_nil] at hlowint
  unfold parseNum
  rw [if_pos hprefix, if_pos (by simp [halves]), hsplit]
  simp only [int_prefixed hhigh (readDigits_printHex _), hlowint, Option.bind_eq_bind,
    Option.bind_some]
  rw [toNat_halves v, Int.shiftLeft_eq]
  push_cast
  rfl

theorem reads_halves (name : List Char) (hname : name.all plain = true) (v : BitVec 64) :
    Reads (named name (halves v)) v.toNat := by
  have hhigh := plain_of_digits (digits_printHex (v.extractLsb' 32 32)) le_rfl
  have hlow := plain_of_digits (digits_printHex (v.extractLsb' 0 32)) le_rfl
  exact ⟨name, halves v, rfl, hname, plain_halves (plain_prefixed hhigh) hlow, parseNum_halves v⟩

theorem reads_hex (name : List Char) (hname : name.all plain = true) {s : List Char} {n : ℕ}
    (hs : Digits 16 s) (hread : readDigits 16 s = some n) :
    Reads (named name ('0' :: 'x' :: s)) n := by
  refine ⟨name, _, rfl, hname, plain_prefixed (plain_of_digits hs le_rfl), ?_⟩
  have hprefix : "0x".toList <:+: '0' :: 'x' :: s := (List.prefix_append ['0', 'x'] _).isInfix
  unfold parseNum
  rw [if_pos hprefix, if_neg (underscore_not_mem hs), int_prefixed hs hread]

/-- A decimal number, also with a new line after it. -/
theorem parseNum_decimal (n : ℕ) {r : List Char} (hr : ∀ c ∈ r, c = '\n') :
    parseNum (Nat.toDigits 10 n ++ r) = some (n : ℤ) := by
  have hdigits : Digits 10 (Nat.toDigits 10 n) := digits_toDigits (by decide) n
  have hnot : ∀ c : Char, c ≠ '\n' → c ∉ "0123456789abcdef".toList →
      c ∉ Nat.toDigits 10 n ++ r := by
    intro c hc hhex hmem
    rcases List.mem_append.mp hmem with h | h
    · exact hdigits.not_mem (by decide) hhex h
    · exact hc (hr c h)
  have hnox : ¬ "0x".toList <:+: Nat.toDigits 10 n ++ r := fun h =>
    hnot 'x' (by decide) (by decide) (h.subset (by decide))
  have hnodnf : Nat.toDigits 10 n ++ r ≠ "dnf".toList := fun h =>
    hnot 'n' (by decide) (by decide) (h ▸ by decide)
  have hspace : ∀ c ∈ r, isSpace c = true := fun c hc => hr c hc ▸ by decide
  unfold parseNum
  rw [if_neg hnox, if_neg hnodnf]
  exact int_digits hdigits (by decide) (readDigits_toDigits (by decide) (by decide) n) hspace

theorem reads_decimal (name : List Char) (hname : name.all plain = true) (n : ℕ) :
    Reads (named name (Nat.toDigits 10 n)) n := by
  have hdigits : Digits 10 (Nat.toDigits 10 n) := digits_toDigits (by decide) n
  have hread := parseNum_decimal n (r := []) (by simp)
  rw [List.append_nil] at hread
  exact ⟨name, _, rfl, hname, plain_of_digits hdigits (by decide), hread⟩

end Values

/-! ## The numbers of a run -/

/-- The number that stands for the result. -/
def Run.resultNum (run : Run) : ℤ :=
  if run.watchdog > run.programMaxDuration then 0xffdeadffffc0deff else run.result.toNat

namespace Experiment

variable (e : Experiment)

/-- The summary, in the order `generate_graph.py` indexes it. -/
def summary : List ℤ :=
  [e.run.injectedPc.toNat, e.run.currentVal.toNat, e.run.newVal.toNat, e.run.pc.toNat,
    e.run.resultNum, e.run.watchdog.toNat, e.injection.reg, e.injection.flippedBit,
    e.injection.delay]

/-- The words of the memory. -/
def words : List ℤ := (List.finRange 4096).map fun k => ((e.run.memory k).toNat : ℤ)

/-- The fields of the saved summary before the last. -/
def firstFields : List (List Char) :=
  e.run.fields ++ [named "reg".toList (Nat.toDigits 10 e.injection.reg),
    named "flipped".toList (Nat.toDigits 10 e.injection.flippedBit)]

def lastField : List Char := named "delay".toList (Nat.toDigits 10 e.injection.delay)

/-- The line of the summary. -/
def output : List Char := [','].intercalate (e.firstFields ++ [e.lastField])

/-- The lines of the dump. -/
def dump : List (List Char) := (List.finRange 4096).map e.run.savedWord

/-- What is saved of the run, without the empty line. -/
def paragraph : List Char := ['\n'].intercalate (e.output :: "memdump:".toList :: e.dump)

theorem reads_result :
    Reads (named "result(reg a0)".toList e.run.resultText) e.run.resultNum := by
  have hname : "result(reg a0)".toList.all plain = true := by decide +kernel
  unfold Run.resultText Run.resultNum
  split
  · exact ⟨_, _, rfl, hname, by decide, by decide +kernel⟩
  · exact reads_halves _ hname e.run.result

theorem reads_firstFields : List.Forall₂ Reads e.firstFields (e.summary.take 8) := by
  have hinjected := reads_halves "PC(injected)".toList (by decide +kernel) e.run.injectedPc
  have hcurrent := reads_halves "current_val(injected)".toList (by decide +kernel)
    e.run.currentVal
  have hnew := reads_halves "new_val(injected)".toList (by decide +kernel) e.run.newVal
  have hpc := reads_halves "PC".toList (by decide) e.run.pc
  have hduration := reads_hex "duration".toList (by decide)
    (digits_printHex e.run.watchdog) (readDigits_printHex _)
  have hreg := reads_decimal "reg".toList (by decide) e.injection.reg
  have hflipped := reads_decimal "flipped".toList (by decide) e.injection.flippedBit
  exact .cons hinjected (.cons hcurrent (.cons hnew (.cons hpc (.cons e.reads_result
    (.cons hduration (.cons hreg (.cons hflipped .nil)))))))

theorem reads_lastField : Reads e.lastField e.injection.delay :=
  reads_decimal _ (by decide) e.injection.delay

/-- A word of the memory, under any plain index. -/
theorem reads_word (run : Run) (k : Fin 4096) {name : List Char} (hname : name.all plain = true) :
    Reads (named name ('0' :: 'x' :: fixed 16 16 (run.memory k).toNat)) (run.memory k).toNat := by
  have hlt : (run.memory k).toNat < 16 ^ 16 := (run.memory k).isLt
  have hdigits : Digits 16 (fixed 16 16 (run.memory k).toNat) :=
    digits_fixed (by decide) (by decide) _
  have hread : readDigits 16 (fixed 16 16 (run.memory k).toNat)
      = some (run.memory k).toNat := by
    rw [readDigits_fixed (by decide) (by decide), Nat.mod_eq_of_lt hlt]
  exact reads_hex name hname hdigits hread

theorem plain_decimal (n : ℕ) : (Nat.toDigits 10 n).all plain = true :=
  plain_of_digits (digits_toDigits (by decide) n) (by decide)

theorem reads_savedWord (run : Run) (k : Fin 4096) :
    Reads (run.savedWord k) (run.memory k).toNat := by
  have hblank : plain ' ' = true := by decide
  have hname : (List.leftpad 4 ' ' (Nat.toDigits 10 k)).all plain = true := by
    simp [List.leftpad, hblank, plain_decimal k]
  exact reads_word run k hname

theorem reads_words (run : Run) (ks : List (Fin 4096)) :
    List.Forall₂ Reads (ks.map run.savedWord) (ks.map fun k => ((run.memory k).toNat : ℤ)) := by
  rw [List.forall₂_map_left_iff, List.forall₂_map_right_iff, List.forall₂_same]
  exact fun k _ => reads_savedWord run k

theorem not_mem_of_reads {fields : List (List Char)} {ns : List ℤ}
    (h : List.Forall₂ Reads fields ns) {c : Char} (hc : c ∈ ['|', ',', '\n', 'm']) :
    ∀ field ∈ fields, c ∉ field := by
  induction h with
  | nil => simp
  | cons hf hrest ih =>
      intro field hfield
      rcases List.mem_cons.mp hfield with rfl | hfield
      · exact hf.not_mem hc
      · exact ih field hfield

theorem output_not_mem {c : Char} (hc : c ∈ ['|', '\n', 'm']) : c ∉ e.output := by
  have hc' : c ∈ ['|', ',', '\n', 'm'] ∧ c ∉ [','] := by fin_cases hc <;> decide
  refine not_mem_intercalate hc'.2 fun field hfield => ?_
  rcases List.mem_append.mp hfield with h | h
  · exact not_mem_of_reads e.reads_firstFields hc'.1 field h
  · rw [List.mem_singleton.mp h]
    exact e.reads_lastField.not_mem hc'.1

theorem dump_not_mem {c : Char} (hc : c ∈ ['\n', 'm']) : ∀ line ∈ e.dump, c ∉ line := by
  have hc' : c ∈ ['|', ',', '\n', 'm'] := by fin_cases hc <;> decide
  exact not_mem_of_reads (reads_words e.run _) hc'

/-! ## Saving -/

theorem split_report :
    split "||memdump||".toList ([','].intercalate e.run.fields ++ ("||memdump||".toList
        ++ (((List.finRange 4096).map e.run.wordLine).flatMap (· ++ [',']) ++ ['\n'])))
      = [[','].intercalate e.run.fields,
        ((List.finRange 4096).map e.run.wordLine).flatMap (· ++ [',']) ++ ['\n']] := by
  have hfields : '|' ∉ [','].intercalate e.run.fields := by
    refine not_mem_intercalate (by decide) fun field hfield => ?_
    exact not_mem_of_reads e.reads_firstFields (by decide) field (List.mem_append_left _ hfield)
  have hdump : '|' ∉ ((List.finRange 4096).map e.run.wordLine).flatMap (· ++ [',']) ++ ['\n'] := by
    rw [flatMap_append_eq_intercalate]
    refine not_mem_intercalate (by decide) fun line hline => ?_
    rcases List.mem_append.mp hline with h | h
    · obtain ⟨k, -, rfl⟩ := List.mem_map.mp h
      exact wordLine_not_mem e.run k (by decide)
    · rw [List.mem_singleton.mp h]
      decide
  have hsep : "||memdump||".toList = '|' :: "|memdump||".toList := by decide
  rw [hsep]
  exact split_pair hfields hdump _

theorem split_dump :
    (split [','] (((List.finRange 4096).map e.run.wordLine).flatMap (· ++ [','])
        ++ ['\n'])).dropLast
      = (List.finRange 4096).map e.run.wordLine := by
  have hlines : ∀ line ∈ (List.finRange 4096).map e.run.wordLine ++ [['\n']], ',' ∉ line := by
    intro line hline
    rcases List.mem_append.mp hline with h | h
    · obtain ⟨k, -, rfl⟩ := List.mem_map.mp h
      exact wordLine_not_mem e.run k (by decide)
    · rw [List.mem_singleton.mp h]
      decide
  rw [flatMap_append_eq_intercalate, split_lines (by simp) hlines, List.dropLast_concat]

theorem output_eq :
    [','].intercalate e.run.fields ++ (",reg:".toList ++ (Nat.toDigits 10 e.injection.reg
      ++ (",flipped:".toList ++ (Nat.toDigits 10 e.injection.flippedBit
      ++ (",delay:".toList ++ Nat.toDigits 10 e.injection.delay))))) = e.output := by
  have hreg : ",reg:".toList = ',' :: ("reg".toList ++ [':']) := by decide
  have hflipped : ",flipped:".toList = ',' :: ("flipped".toList ++ [':']) := by decide
  have hdelay : ",delay:".toList = ',' :: ("delay".toList ++ [':']) := by decide
  rw [hreg, hflipped, hdelay]
  simp only [output, firstFields, lastField, Run.fields, List.cons_append, List.nil_append,
    List.intercalate_cons_cons, List.intercalate_singleton, named, List.append_assoc]

theorem paragraph_eq :
    e.paragraph = e.output ++ ("\nmemdump:\n".toList ++ ['\n'].intercalate e.dump) := by
  have hmark : "\nmemdump:\n".toList = '\n' :: ("memdump:".toList ++ ['\n']) := by decide
  have hne : e.dump ≠ [] := by simp [dump]
  rw [hmark, paragraph, List.intercalate_cons_cons, List.intercalate_cons_of_ne_nil hne]
  simp only [List.cons_append, List.nil_append, List.append_assoc]

/-- A run is saved as its paragraph and an empty line. -/
theorem logged_eq : e.logged = some (e.paragraph ++ "\n\n".toList) := by
  have hparse : parseMemdump ((List.finRange 4096).map e.run.wordLine) = some e.dump := by
    unfold parseMemdump dump
    rw [List.mapM_map]
    exact mapM_eq_map fun k _ => parseWord_wordLine e.run k
  unfold logged
  rw [report_eq, Option.bind_some, fileWriteLine]
  simp only [split_report, split_dump, hparse, Option.bind_eq_bind, Option.bind_some, output_eq,
    paragraph_eq, List.append_assoc]

/-! ## Reading back -/

/-- A decimal field reads the same with a new line after it. -/
theorem parseElem_lastField :
    parseElem (e.lastField ++ ['\n']) = some (e.injection.delay : ℤ) := by
  have hname : ':' ∉ "delay".toList := by decide
  have hvalue : ':' ∉ Nat.toDigits 10 e.injection.delay ++ ['\n'] := by
    have hdigits := not_mem_of_plain (plain_decimal e.injection.delay) (c := ':') (by decide)
    simpa using hdigits
  have hcut : e.lastField ++ ['\n']
      = "delay".toList ++ ':' :: (Nat.toDigits 10 e.injection.delay ++ ['\n']) := by
    simp [lastField, named]
  unfold parseElem
  rw [hcut, split_cons_append hname, split_of_not_mem hvalue]
  exact parseNum_decimal e.injection.delay (by simp)

theorem parse_summary :
    (split [','] (e.output ++ ['\n'])).mapM parseElem = some e.summary := by
  have hlines : ∀ field ∈ e.firstFields ++ [e.lastField ++ ['\n']], ',' ∉ field := by
    intro field hfield
    rcases List.mem_append.mp hfield with h | h
    · exact not_mem_of_reads e.reads_firstFields (by decide) field h
    · have hlast := e.reads_lastField.not_mem (c := ',') (by decide)
      rw [List.mem_singleton.mp h]
      simpa using hlast
  rw [output, intercalate_append, split_lines (by simp) hlines, List.mapM_append,
    mapM_parseElem e.reads_firstFields, List.mapM_cons, parseElem_lastField]
  rfl

/-- A word as it is left when the white space before it is stripped. -/
def trimmedWord (k : Fin 4096) : List Char :=
  named (Nat.toDigits 10 k) ('0' :: 'x' :: fixed 16 16 (e.run.memory k).toNat)

/-- Every line of the dump ends in a digit. -/
theorem line_end (k : Fin 4096) (name : List Char) :
    named name ('0' :: 'x' :: fixed 16 16 (e.run.memory k).toNat) ≠ [] ∧
      ∀ c ∈ (named name ('0' :: 'x' :: fixed 16 16 (e.run.memory k).toNat)).getLast?,
        isSpace c = false := by
  have hdigits : Digits 16 (fixed 16 16 (e.run.memory k).toNat) :=
    digits_fixed (by decide) (by decide) _
  have hcut : named name ('0' :: 'x' :: fixed 16 16 (e.run.memory k).toNat)
      = name ++ [':', '0', 'x'] ++ fixed 16 16 (e.run.memory k).toNat := by
    simp [named]
  rw [hcut]
  refine ⟨by simp, fun c hc => ?_⟩
  rw [List.getLast?_append_of_ne_nil _ hdigits.ne_nil] at hc
  exact hdigits.not_space le_rfl c (List.mem_of_getLast? hc)

theorem savedWord_eq (k : Fin 4096) :
    ∃ n, e.run.savedWord k = List.replicate n ' ' ++ e.trimmedWord k :=
  ⟨4 - (Nat.toDigits 10 k).length, by simp [Run.savedWord, trimmedWord, named, List.leftpad]⟩

theorem strip_dump {r : List Char} (hr : ∀ c ∈ r, isSpace c = true) :
    ∃ k ks, List.finRange 4096 = k :: ks ∧
      strip ('\n' :: (['\n'].intercalate e.dump ++ r))
        = ['\n'].intercalate (e.trimmedWord k :: ks.map e.run.savedWord) := by
  have hne : List.finRange 4096 ≠ [] := by simp
  obtain ⟨k, ks, hks⟩ := List.exists_cons_of_ne_nil hne
  obtain ⟨n, hsaved⟩ := e.savedWord_eq k
  refine ⟨k, ks, hks, ?_⟩
  have hdump : ['\n'].intercalate e.dump = List.replicate n ' '
      ++ ['\n'].intercalate (e.trimmedWord k :: ks.map e.run.savedWord) := by
    rw [dump, hks, List.map_cons, hsaved, append_intercalate]
  have hcut : '\n' :: (['\n'].intercalate e.dump ++ r) = '\n' :: List.replicate n ' '
      ++ (['\n'].intercalate (e.trimmedWord k :: ks.map e.run.savedWord) ++ r) := by
    rw [hdump, List.cons_append, List.append_assoc]
  have hdigits : Digits 10 (Nat.toDigits 10 k) := digits_toDigits (by decide) k
  rw [hcut]
  refine strip_lines (fun c hc => ?_) (fun c hc => ?_) (fun line hline => ?_) hr
  · rcases List.mem_cons.mp hc with rfl | hc
    · decide
    · rw [List.eq_of_mem_replicate hc]
      decide
  · rw [trimmedWord, named, List.head?_append_of_ne_nil _ hdigits.ne_nil] at hc
    exact hdigits.not_space (by decide) c (List.mem_of_mem_head? hc)
  · rcases List.mem_cons.mp hline with rfl | hline
    · exact e.line_end k _
    · obtain ⟨j, -, rfl⟩ := List.mem_map.mp hline
      exact e.line_end j _

theorem parse_memdump {r : List Char} (hr : ∀ c ∈ r, isSpace c = true) :
    (split ['\n'] (strip ('\n' :: (['\n'].intercalate e.dump ++ r)))).mapM parseElem
      = some e.words := by
  obtain ⟨k, ks, hks, hstrip⟩ := e.strip_dump hr
  have hreads : List.Forall₂ Reads (e.trimmedWord k :: ks.map e.run.savedWord) e.words := by
    unfold words
    rw [hks]
    exact .cons (reads_word e.run k (plain_decimal k)) (reads_words e.run ks)
  rw [hstrip, split_lines (List.cons_ne_nil _ _) (not_mem_of_reads hreads (by decide)),
    mapM_parseElem hreads]

/-- What is saved of a run is read back, also at the end of the file. -/
theorem parseRun_paragraph {r : List Char} (hr : ∀ c ∈ r, c = '\n') :
    parseRun (e.paragraph ++ r) = some (e.summary, e.words) := by
  have hspace : ∀ c ∈ r, isSpace c = true := fun c hc => hr c hc ▸ by decide
  have hleft : 'm' ∉ e.output ++ ['\n'] := by
    simpa using e.output_not_mem (c := 'm') (by decide)
  have hright : 'm' ∉ '\n' :: (['\n'].intercalate e.dump ++ r) := by
    have hdump : 'm' ∉ ['\n'].intercalate e.dump :=
      not_mem_intercalate (by decide) (e.dump_not_mem (by decide))
    have hend : 'm' ∉ r := fun h => absurd (hr 'm' h) (by decide)
    simp [hdump, hend]
  have hcut : e.paragraph ++ r = e.output ++ ['\n'] ++ ('m' :: "emdump:".toList
      ++ '\n' :: (['\n'].intercalate e.dump ++ r)) := by
    have hmark : "\nmemdump:\n".toList = '\n' :: ('m' :: "emdump:".toList ++ ['\n']) := by decide
    rw [paragraph_eq, hmark]
    simp only [List.cons_append, List.nil_append, List.append_assoc]
  have hsep : "memdump:".toList = 'm' :: "emdump:".toList := by decide
  unfold parseRun
  rw [hcut, hsep, split_pair hleft hright]
  simp only [parse_summary, parse_memdump e hspace, Option.bind_eq_bind, Option.bind_some]

/-- No paragraph holds an empty line. -/
theorem clean_paragraph : Clean ['\n', '\n'] e.paragraph := by
  refine clean_pair_intercalate fun line hline => ?_
  rcases List.mem_cons.mp hline with rfl | hline
  · exact ⟨by simp [output, firstFields, Run.fields, named], e.output_not_mem (by decide)⟩
  · rcases List.mem_cons.mp hline with rfl | hline
    · exact ⟨by decide, by decide⟩
    · obtain ⟨k, -, hk⟩ := List.mem_map.mp hline
      exact ⟨hk ▸ (e.line_end k _).1, e.dump_not_mem (by decide) line hline⟩

end Experiment

/-- What the file reads as. -/
theorem parseFile_paragraphs (first : List Experiment) (last : Experiment) :
    parseFile ((first ++ [last]).flatMap fun e => e.paragraph ++ "\n\n".toList)
      = some ((first ++ [last]).map fun e => (e.summary, e.words)) := by
  have hsep : "\n\n".toList = ['\n', '\n'] := by decide
  have htext : ((first ++ [last]).flatMap fun e => e.paragraph ++ "\n\n".toList).dropLast
      = ['\n', '\n'].intercalate
        (first.map Experiment.paragraph ++ [last.paragraph ++ ['\n']]) := by
    have hmap : ((first ++ [last]).flatMap fun e => e.paragraph ++ "\n\n".toList)
        = ((first ++ [last]).map Experiment.paragraph).flatMap (· ++ ['\n', '\n']) := by
      rw [List.flatMap_map, hsep]
    rw [hmap, flatMap_append_sep (by simp), List.dropLast_append_of_ne_nil (by simp),
      List.map_append]
    exact intercalate_append _ _ ['\n']
  have hlast : split ['\n', '\n'] (last.paragraph ++ ['\n']) = [last.paragraph ++ ['\n']] :=
    split_clean_tail last.clean_paragraph (by decide) (by decide)
  have hfirst : ∀ p ∈ first.map Experiment.paragraph, Clean ['\n', '\n'] p := by
    intro p hp
    obtain ⟨e, -, rfl⟩ := List.mem_map.mp hp
    exact e.clean_paragraph
  have hread : (first.map Experiment.paragraph).mapM parseRun
      = some (first.map fun e => (e.summary, e.words)) := by
    rw [List.mapM_map]
    refine mapM_eq_map fun e _ => ?_
    have h := e.parseRun_paragraph (r := []) (by simp)
    rwa [List.append_nil] at h
  unfold parseFile
  rw [htext, hsep, split_intercalate (List.cons_ne_nil _ _) hfirst hlast, List.mapM_append, hread,
    List.mapM_cons, last.parseRun_paragraph (by simp)]
  simp

/-- The file of some runs. -/
theorem dataDump_eq (runs : List Experiment) :
    dataDump runs = some (runs.flatMap fun e => e.paragraph ++ "\n\n".toList) := by
  have hlogged : runs.mapM Experiment.logged
      = some (runs.map fun e => e.paragraph ++ "\n\n".toList) :=
    mapM_eq_map fun e _ => e.logged_eq
  rw [dataDump, hlogged, Option.map_some, ← List.flatMap_def]

/-- The numbers of a file of saved runs. -/
theorem parseFile_dataDump (run : Experiment) (others : List Experiment) :
    (dataDump (run :: others)).bind parseFile
      = some ((run :: others).map fun e => (e.summary, e.words)) := by
  obtain ⟨first, last, hruns⟩ :=
    (List.eq_nil_or_concat (run :: others)).resolve_left (List.cons_ne_nil _ _)
  rw [List.concat_eq_append] at hruns
  rw [dataDump_eq, Option.bind_some, hruns]
  exact parseFile_paragraphs first last

/--
**The log is read as it was meant.** However many runs are saved, the plots are made from
the values that were read from the processor: the summary of every run, with the injected
PC first, the result fifth and the register third from the end, and its memory in order.
A run that did not finish has the number that stands for `dnf` as its result.
-/
theorem run_log_round_trip (run : Experiment) (others : List Experiment) :
    (dataDump (run :: others)).bind parseFile
        = some ((run :: others).map fun e => (e.summary, e.words)) ∧
      ∀ e : Experiment, e.summary[0]? = some (e.run.injectedPc.toNat : ℤ) ∧
        e.summary[4]? = some e.run.resultNum ∧
        e.summary[e.summary.length - 3]? = some (e.injection.reg : ℤ) := by
  refine ⟨parseFile_dataDump run others, ?_⟩
  intro e
  exact ⟨rfl, rfl, rfl⟩

end Soft

end PassiFlo
