import PassiFlo.Lib.Text

/-!
# Numerals

Numbers as texts. `Nat.toDigits` writes a number in as few digits as it takes; `fixed`
writes its last digits, as many as are asked for. `int` reads them, with the signs,
prefixes, underscores and white space it allows around them.

Nothing here mentions a particular program.
-/

namespace Text

/-! ## Reading -/

/-- The value of a digit, in either case. -/
def digitValue (c : Char) : Option ℕ :=
  if '0' ≤ c ∧ c ≤ '9' then some (c.toNat - 0x30)
  else if 'a' ≤ c ∧ c ≤ 'f' then some (c.toNat - 0x57)
  else if 'A' ≤ c ∧ c ≤ 'F' then some (c.toNat - 0x37)
  else none

/-- One more digit. -/
def readDigit (base n : ℕ) (c : Char) : Option ℕ :=
  (digitValue c).bind fun d => if d < base then some (base * n + d) else none

def readDigits (base : ℕ) (s : List Char) : Option ℕ := s.foldlM (readDigit base) 0

/-- Digits with single underscores between them. -/
def readNat (base : ℕ) (s : List Char) : Option ℕ :=
  let pieces := split ['_'] s
  if pieces.any List.isEmpty then none else readDigits base pieces.flatten

/-- The prefix of a hexadecimal number, with the underscore that may follow it. -/
def dropRadix : List Char → List Char
  | '0' :: x :: s =>
      if x = 'x' ∨ x = 'X' then if s.head? = some '_' then s.tail else s else '0' :: x :: s
  | s => s

/-- The number after the sign. -/
def readRadix (base : ℕ) (s : List Char) : Option ℕ :=
  readNat base (if base = 16 then dropRadix s else s)

/-- `int(s, base)`, for the bases 10 and 16; nothing where it raises an exception. -/
def int (base : ℕ) (s : List Char) : Option ℤ :=
  match strip s with
  | '-' :: s => (readRadix base s).map fun n => -Int.ofNat n
  | '+' :: s => (readRadix base s).map Int.ofNat
  | s => (readRadix base s).map Int.ofNat

/-! ## Writing -/

/-- `f"{n:x}"` with a sign. -/
def signed (digits : ℕ → List Char) (n : ℤ) : List Char :=
  if n < 0 then '-' :: digits n.natAbs else digits n.natAbs

/-- `hex(n)`. -/
def hex (n : ℤ) : List Char := signed (fun n => '0' :: 'x' :: Nat.toDigits 16 n) n

/-- The last `k` digits. -/
def fixed (base : ℕ) : ℕ → ℕ → List Char
  | 0, _ => []
  | k + 1, n => fixed base k (n / base) ++ [Nat.digitChar (n % base)]

/-- A text of digits. -/
structure Digits (base : ℕ) (s : List Char) : Prop where
  ne_nil : s ≠ []
  digits : ∀ c ∈ s, ∃ d < base, c = Nat.digitChar d

section Digits

variable {base k n : ℕ} {c : Char} {s : List Char}

theorem digitValue_digitChar {d : ℕ} (hd : d < 16) : digitValue (Nat.digitChar d) = some d := by
  have hall : ∀ d : Fin 16, digitValue (Nat.digitChar d) = some d.val := by decide
  exact hall ⟨d, hd⟩

/-- The digits are these sixteen. -/
theorem digitChar_mem {d : ℕ} (hd : d < 16) : Nat.digitChar d ∈ "0123456789abcdef".toList := by
  have hall : ∀ d : Fin 16, Nat.digitChar d ∈ "0123456789abcdef".toList := by decide
  exact hall ⟨d, hd⟩

theorem Digits.not_mem (hs : Digits base s) (hbase : base ≤ 16)
    (hc : c ∉ "0123456789abcdef".toList) : c ∉ s := by
  intro hmem
  obtain ⟨d, hd, rfl⟩ := hs.digits c hmem
  exact hc (digitChar_mem (hd.trans_le hbase))

theorem Digits.not_space (hs : Digits base s) (hbase : base ≤ 16) :
    ∀ c ∈ s, isSpace c = false := by
  intro c hc
  obtain ⟨d, hd, rfl⟩ := hs.digits c hc
  have hall : ∀ d : Fin 16, isSpace (Nat.digitChar d) = false := by decide
  exact hall ⟨d, hd.trans_le hbase⟩

theorem digits_toDigits (hbase : 1 < base) (n : ℕ) : Digits base (Nat.toDigits base n) := by
  refine ⟨Nat.toDigits_ne_nil, ?_⟩
  induction n using Nat.strongRecOn with
  | ind n ih =>
      intro c hc
      rw [Nat.toDigits_eq_if hbase] at hc
      split at hc
      · rename_i hn
        exact ⟨n, hn, List.mem_singleton.mp hc⟩
      · rename_i hn
        rcases List.mem_append.mp hc with hc | hc
        · exact ih (n / base) (Nat.div_lt_self (by omega) hbase) c hc
        · exact ⟨n % base, Nat.mod_lt n (by omega), List.mem_singleton.mp hc⟩

theorem digits_fixed (hbase : 1 < base) (hk : k ≠ 0) (n : ℕ) : Digits base (fixed base k n) := by
  refine ⟨?_, ?_⟩
  · obtain ⟨k, rfl⟩ := Nat.exists_eq_succ_of_ne_zero hk
    simp [fixed]
  · clear hk
    induction k generalizing n with
    | zero => simp [fixed]
    | succ k ih =>
        intro c hc
        rcases List.mem_append.mp hc with hc | hc
        · exact ih (n / base) c hc
        · exact ⟨n % base, Nat.mod_lt n (by omega), List.mem_singleton.mp hc⟩

/-! ## What is written is read -/

theorem readDigits_concat {d m : ℕ} (hs : readDigits base s = some m) (hd : d < base)
    (hbase : base ≤ 16) :
    readDigits base (s ++ [Nat.digitChar d]) = some (base * m + d) := by
  unfold readDigits at hs ⊢
  rw [List.foldlM_append, hs]
  simp [readDigit, digitValue_digitChar (hd.trans_le hbase), hd]

theorem readDigits_fixed (hbase : base ≤ 16) (hpos : 0 < base) (k n : ℕ) :
    readDigits base (fixed base k n) = some (n % base ^ k) := by
  induction k generalizing n with
  | zero => simp [fixed, readDigits, Nat.mod_one]
  | succ k ih =>
      rw [fixed, readDigits_concat (ih (n / base)) (Nat.mod_lt n hpos) hbase, Nat.pow_succ',
        Nat.mod_mul, Nat.add_comm]

theorem readDigits_toDigits (hbase : base ≤ 16) (hone : 1 < base) (n : ℕ) :
    readDigits base (Nat.toDigits base n) = some n := by
  induction n using Nat.strongRecOn with
  | ind n ih =>
      rw [Nat.toDigits_eq_if hone]
      split
      · rename_i hn
        simpa using readDigits_concat (s := []) (m := 0) rfl hn hbase
      · rename_i hn
        have hrest := ih (n / base) (Nat.div_lt_self (by omega) hone)
        rw [readDigits_concat hrest (Nat.mod_lt n (by omega)) hbase, Nat.div_add_mod]

/-- An `x` is no digit. -/
theorem Digits.dropRadix (hs : Digits base s) (hbase : base ≤ 16) : dropRadix s = s := by
  unfold Text.dropRadix
  split
  · rename_i x s
    refine if_neg fun hx => ?_
    rcases hx with rfl | rfl
    · exact hs.not_mem (c := 'x') hbase (by decide) (by simp)
    · exact hs.not_mem (c := 'X') hbase (by decide) (by simp)
  · rfl

/-- Neither is an underscore. -/
theorem Digits.readNat (hs : Digits base s) (hbase : base ≤ 16) :
    readNat base s = readDigits base s := by
  have hclean : Clean ['_'] s := clean_of_not_mem (hs.not_mem hbase (by decide))
  unfold Text.readNat
  rw [split_clean (List.cons_ne_nil _ _) hclean]
  simp [hs.ne_nil]

/-- White space may follow the digits. -/
theorem Digits.int (hs : Digits base s) (hbase : base ≤ 16) {r : List Char}
    (hr : ∀ c ∈ r, isSpace c = true) : int base (s ++ r) = (readDigits base s).map Int.ofNat := by
  have hradix : readRadix base s = readDigits base s := by
    rw [readRadix, hs.dropRadix hbase, ite_self, hs.readNat hbase]
  unfold Text.int
  rw [strip_word (hs.not_space hbase) hr, ← hradix]
  split
  · exact absurd (List.mem_cons_self ..) (hs.not_mem (c := '-') hbase (by decide))
  · exact absurd (List.mem_cons_self ..) (hs.not_mem (c := '+') hbase (by decide))
  · rfl

/-- A prefix may precede them. -/
theorem Digits.int_prefixed (hs : Digits 16 s) {r : List Char} (hr : ∀ c ∈ r, isSpace c = true) :
    Text.int 16 ('0' :: 'x' :: s ++ r) = (readDigits 16 s).map Int.ofNat := by
  have hspace : ∀ c ∈ '0' :: 'x' :: s, isSpace c = false := by
    intro c hc
    rcases List.mem_cons.mp hc with rfl | hc
    · decide
    · rcases List.mem_cons.mp hc with rfl | hc
      · decide
      · exact hs.not_space le_rfl c hc
  have hhead : s.head? ≠ some '_' := fun h =>
    hs.not_mem (c := '_') le_rfl (by decide) (List.mem_of_mem_head? h)
  have hdrop : Text.dropRadix ('0' :: 'x' :: s) = s := by
    rw [Text.dropRadix, if_pos (Or.inl rfl), if_neg hhead]
  have hradix : readRadix 16 ('0' :: 'x' :: s) = readDigits 16 s := by
    rw [readRadix, if_pos rfl, hdrop, hs.readNat le_rfl]
  unfold Text.int
  rw [strip_word hspace hr, ← hradix]
  rfl

theorem fixed_zero (k : ℕ) : fixed base k 0 = List.replicate k '0' := by
  induction k with
  | zero => rfl
  | succ k ih =>
      rw [fixed, Nat.zero_div, ih, Nat.zero_mod, List.replicate_succ']
      rfl

theorem leftpad_concat (k : ℕ) (a c : Char) (s : List Char) :
    List.leftpad (k + 1) a (s ++ [c]) = List.leftpad k a s ++ [c] := by
  simp [List.leftpad]

/-- Padding to `k` digits gives the last `k` digits of a number that has no more. -/
theorem leftpad_toDigits (hbase : 1 < base) (hk : k ≠ 0) (hn : n < base ^ k) :
    List.leftpad k '0' (Nat.toDigits base n) = fixed base k n := by
  induction k generalizing n with
  | zero => exact absurd rfl hk
  | succ k ih =>
      rw [Nat.toDigits_eq_if hbase, fixed]
      split
      · rename_i hlt
        rw [Nat.div_eq_of_lt hlt, Nat.mod_eq_of_lt hlt, fixed_zero, ← List.nil_append [_],
          leftpad_concat]
        simp [List.leftpad]
      · rename_i hle
        have hk : k ≠ 0 := by
          intro hzero
          obtain rfl := hzero
          exact hle (by simpa using hn)
        rw [leftpad_concat, ih hk (Nat.div_lt_of_lt_mul (by rwa [← Nat.pow_succ']))]

/-- A number that has so many digits ends in its last ones. -/
theorem fixed_suffix (hbase : 1 < base) (hn : base ^ k ≤ base * n) :
    fixed base k n <:+ Nat.toDigits base n := by
  induction k generalizing n with
  | zero => exact List.nil_suffix
  | succ k ih =>
      have hle : base ^ k ≤ n := by
        rw [Nat.pow_succ'] at hn
        exact Nat.le_of_mul_le_mul_left hn (by omega)
      rw [Nat.toDigits_eq_if hbase, fixed]
      split
      · rename_i hlt
        have hk : k = 0 := by
          by_contra hk
          exact absurd (hle.trans_lt hlt) (Nat.not_lt.mpr (Nat.le_self_pow hk base))
        rw [hk, Nat.mod_eq_of_lt hlt]
        exact List.suffix_rfl
      · rename_i hge
        have hpos : 0 < base := by omega
        have hdiv : base ^ k ≤ base * (n / base) := by
          cases k with
          | zero =>
              have hone : 1 ≤ n / base := (Nat.one_le_div_iff hpos).mpr (Nat.not_lt.mp hge)
              exact Nat.mul_le_mul hbase.le hone
          | succ k =>
              rw [Nat.pow_succ'] at hle ⊢
              have hquot : base ^ k ≤ n / base :=
                (Nat.le_div_iff_mul_le hpos).mpr (by rwa [Nat.mul_comm])
              exact Nat.mul_le_mul_left base hquot
        obtain ⟨s, hs⟩ := ih hdiv
        exact ⟨s, by rw [← List.append_assoc, hs]⟩

/-- A number of `k + 1` digits is written as its last `k + 1` digits. -/
theorem toDigits_eq_fixed (hbase : 1 < base) (hle : base ^ k ≤ n) (hlt : n < base ^ (k + 1)) :
    Nat.toDigits base n = fixed base (k + 1) n := by
  have hpad := leftpad_toDigits hbase (Nat.succ_ne_zero k) hlt
  have hsuffix : fixed base (k + 1) n <:+ Nat.toDigits base n :=
    fixed_suffix hbase (by rw [Nat.pow_succ']; exact Nat.mul_le_mul_left base hle)
  have hback : Nat.toDigits base n <:+ fixed base (k + 1) n := hpad ▸ List.suffix_append _ _
  exact hback.eq_of_length_le hsuffix.length_le

theorem fixed_append (j k n : ℕ) :
    fixed base (j + k) n = fixed base j (n / base ^ k) ++ fixed base k n := by
  induction k generalizing n with
  | zero => simp [fixed]
  | succ k ih =>
      rw [← Nat.add_assoc, fixed, ih, List.append_assoc, Nat.div_div_eq_div_mul, ← Nat.pow_succ']
      rfl

/-- Only the last digits count. -/
theorem fixed_mod (k n : ℕ) : fixed base k (n % base ^ k) = fixed base k n := by
  induction k generalizing n with
  | zero => rfl
  | succ k ih =>
      have hdiv : n % base ^ (k + 1) / base = n / base % base ^ k := by
        rw [Nat.pow_succ', Nat.mod_mul_right_div_self]
      have hmod : n % base ^ (k + 1) % base = n % base :=
        Nat.mod_mod_of_dvd n (dvd_pow_self base (Nat.succ_ne_zero k))
      rw [fixed, fixed, hdiv, hmod, ih]

@[simp] theorem length_fixed (k n : ℕ) : (fixed base k n).length = k := by
  induction k generalizing n with
  | zero => rfl
  | succ k ih => simp [fixed, ih]

end Digits

end Text
