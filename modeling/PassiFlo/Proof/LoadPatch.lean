import PassiFlo.Isa.Assembly
import PassiFlo.Soft.ParseHelpers

/-!
# Which loads are patched rightly

The pass tells the registers of a load apart by their names, with `in` on the text of the
address. That goes wrong where one name occurs in another or in the offset, and where one
register has two names; it is right everywhere else. Lines that are no loads are told from
the loads by two characters, which a label may share.
-/

namespace PassiFlo

namespace Soft

open Text Isa

/-! ## Names -/

theorem mem_abi_all (r : Abi) : r ∈ Abi.all := by
  unfold Abi.all
  cases r <;> simp

/-- A character of a name: no white space and no punctuation. -/
def nameChar (c : Char) : Bool := !isSpace c && [',', '(', ')', '\n'].all (· != c)

theorem abi_text (r : Abi) : r.text ≠ [] ∧ r.text.all nameChar = true := by
  have hall : ∀ r ∈ Abi.all, r.text ≠ [] ∧ r.text.all nameChar = true := by decide +kernel
  exact hall r (mem_abi_all r)

theorem op_text (op : LoadOp) : op.text ≠ [] ∧ op.text.all nameChar = true := by
  cases op <;> decide +kernel

theorem readRegister_text (r : Abi) : readRegister r.text = some r.number := by
  have hall : ∀ r ∈ Abi.all, readRegister r.text = some r.number := by decide +kernel
  exact hall r (mem_abi_all r)

/-- The pairs that `in` takes for one register and are two, or the other way around. -/
def confusedNames : List (Abi × Abi) := [(.s 1, .s 10), (.s 1, .s 11), (.fp, .s 0), (.s 0, .fp)]

theorem mem_confusedNames_iff (rd rs : Abi) :
    (rd, rs) ∈ confusedNames ↔ ¬ (rd.text <:+: rs.text ↔ rd.number = rs.number) := by
  have hall : ∀ rd ∈ Abi.all, ∀ rs ∈ Abi.all,
      ((rd, rs) ∈ confusedNames ↔ ¬ (rd.text <:+: rs.text ↔ rd.number = rs.number)) := by
    decide +kernel
  exact hall rd (mem_abi_all rd) rs (mem_abi_all rs)

/-- A name that occurs in another name of its register is that name. -/
theorem eq_of_infix {rd rs : Abi} (h : rd.text <:+: rs.text) (hnum : rd.number = rs.number) :
    rd = rs := by
  have hall : ∀ rd ∈ Abi.all, ∀ rs ∈ Abi.all,
      rd.text <:+: rs.text → rd.number = rs.number → rd = rs := by
    decide +kernel
  exact hall rd (mem_abi_all rd) rs (mem_abi_all rs) h hnum

theorem not_space_of_name {s : List Char} (hs : s.all nameChar = true) :
    ∀ c ∈ s, isSpace c = false := by
  intro c hc
  have hname := List.all_eq_true.mp hs c hc
  simp only [nameChar, Bool.and_eq_true, Bool.not_eq_true'] at hname
  exact hname.1

theorem not_mem_of_name {s : List Char} (hs : s.all nameChar = true) {c : Char}
    (hc : c ∈ [',', '(', ')', '\n']) : c ∉ s := by
  intro hmem
  have hname := List.all_eq_true.mp hs c hmem
  simp only [nameChar, Bool.and_eq_true] at hname
  exact absurd rfl (bne_iff_ne.mp (List.all_eq_true.mp hname.2 c hc))

/-! ## Offsets -/

/-- The characters a numeric offset is made of. -/
def offsetChar (c : Char) : Bool := (digitValue c).isSome || ['x', 'X', '+', '-'].contains c

theorem digits_of_readDigits {base n m : ℕ} {s : List Char}
    (h : s.foldlM (readDigit base) m = some n) : s.all fun c => (digitValue c).isSome := by
  induction s generalizing m with
  | nil => rfl
  | cons c s ih =>
      rw [List.foldlM_cons] at h
      obtain ⟨k, hk, hrest⟩ := Option.bind_eq_some_iff.mp h
      obtain ⟨d, hd, -⟩ := Option.bind_eq_some_iff.mp hk
      rw [List.all_cons, hd, ih hrest]
      rfl

theorem offset_of_readDigits {base n : ℕ} {s : List Char} (h : readDigits base s = some n) :
    s.all offsetChar = true := by
  refine List.all_eq_true.mpr fun c hc => ?_
  rw [offsetChar, List.all_eq_true.mp (digits_of_readDigits h) c hc, Bool.true_or]

/-- The prefix of a base is made of them too. -/
theorem readBase_offset {s : List Char} :
    (readBase s).2 ≠ [] → (readBase s).2.all offsetChar = true →
      s ≠ [] ∧ s.all offsetChar = true := by
  have hzero : offsetChar '0' = true := by decide
  fun_cases readBase s with
  | case1 c s hx =>
      intro _ hall
      have hc : offsetChar c = true := by rcases hx with rfl | rfl <;> decide
      exact ⟨List.cons_ne_nil _ _, by rw [List.all_cons, List.all_cons, hzero, hc, hall]; rfl⟩
  | case2 c s _ hb =>
      intro _ hall
      have hc : offsetChar c = true := by rcases hb with rfl | rfl <;> decide
      exact ⟨List.cons_ne_nil _ _, by rw [List.all_cons, List.all_cons, hzero, hc, hall]; rfl⟩
  | case3 c s =>
      intro _ hall
      exact ⟨List.cons_ne_nil _ _, by rw [List.all_cons, hzero, hall]; rfl⟩
  | case4 s =>
      intro hne hall
      exact ⟨hne, hall⟩

theorem offset_of_readNumber {s : List Char} {n : ℕ} (h : readNumber s = some n) :
    s ≠ [] ∧ s.all offsetChar = true := by
  unfold readNumber at h
  rw [ite_eq_iff] at h
  obtain ⟨-, h⟩ | ⟨hne, h⟩ := h
  · exact absurd h (by simp)
  · exact readBase_offset hne (offset_of_readDigits h)

theorem offset_of_readOffset {s : List Char} {v : ℤ} (h : readOffset s = some v) :
    s ≠ [] ∧ s.all offsetChar = true := by
  unfold readOffset at h
  split at h
  · rename_i s
    obtain ⟨n, hn, -⟩ := Option.map_eq_some_iff.mp h
    refine ⟨List.cons_ne_nil _ _, ?_⟩
    rw [List.all_cons, (offset_of_readNumber hn).2]
    decide
  · rename_i s
    obtain ⟨n, hn, -⟩ := Option.map_eq_some_iff.mp h
    refine ⟨List.cons_ne_nil _ _, ?_⟩
    rw [List.all_cons, (offset_of_readNumber hn).2]
    decide
  · obtain ⟨n, hn, -⟩ := Option.map_eq_some_iff.mp h
    exact offset_of_readNumber hn

theorem offsetChar_lt {c : Char} (hc : offsetChar c = true) : c.toNat < 128 := by
  have hle : ∀ d : Char, c ≤ d → c.toNat ≤ d.toNat := fun d h => h
  unfold offsetChar digitValue at hc
  split at hc
  · rename_i h
    exact (hle _ h.2).trans_lt (by decide)
  · split at hc
    · rename_i h
      exact (hle _ h.2).trans_lt (by decide)
    · split at hc
      · rename_i h
        exact (hle _ h.2).trans_lt (by decide)
      · have hmem : c ∈ ['x', 'X', '+', '-'] := List.contains_iff_mem.mp hc
        fin_cases hmem <;> decide

theorem offsetChar_name {c : Char} (hc : offsetChar c = true) : nameChar c = true ∧ c ≠ 't' := by
  have hall : ∀ n : Fin 128, offsetChar (Char.ofNat n) = true →
      nameChar (Char.ofNat n) = true ∧ Char.ofNat n ≠ 't' := by
    decide +kernel
  have hget := hall ⟨c.toNat, offsetChar_lt hc⟩
  rw [Char.ofNat_toNat] at hget
  exact hget hc

theorem name_of_readOffset {s : List Char} {v : ℤ} (h : readOffset s = some v) :
    s.all nameChar = true :=
  List.all_eq_true.mpr fun c hc =>
    (offsetChar_name (List.all_eq_true.mp (offset_of_readOffset h).2 c hc)).1

/-- A text with a `t` in it is no offset. -/
theorem readOffset_eq_none {p s : List Char} : readOffset (p ++ 't' :: s) = none := by
  refine Option.eq_none_iff_forall_ne_some.mpr fun v hv => ?_
  have ht := List.all_eq_true.mp (offset_of_readOffset hv).2 't' (by simp)
  exact (offsetChar_name ht).2 rfl

/-! ## Reading a load -/

theorem readAddress_address {offset : List Char} {v : ℤ} (h : readOffset offset = some v)
    (rs : Abi) : readAddress (address offset rs) = some (v, rs.number) := by
  have hoff : '(' ∉ offset := not_mem_of_name (name_of_readOffset h) (by simp)
  have hrs : '(' ∉ rs.text ++ [')'] := by
    simpa using not_mem_of_name (c := '(') (abi_text rs).2 (by simp)
  unfold readAddress address
  rw [split_cons_append hoff, split_of_not_mem hrs]
  simp [h, readRegister_text]

theorem readAddress_eq_none {p s : List Char} (hp : '(' ∉ p) :
    readAddress (p ++ 't' :: s) = none := by
  have hpt : '(' ∉ p ++ ['t'] := by simpa using hp
  have hsplit := split_append_of_not_mem (s := []) hpt s
  rw [List.append_assoc, List.singleton_append] at hsplit
  unfold readAddress
  rw [hsplit]
  cases split ['('] s with
  | nil => rfl
  | cons x rest =>
      cases rest with
      | nil => rfl
      | cons base rest =>
          cases rest with
          | nil => simp [readOffset_eq_none]
          | cons y rest => rfl

/-- The operands are read apart from each other. -/
theorem readOperands_eq (op : LoadOp) {blanks gap a : List Char} (rd : Abi)
    (hblanks : ∀ c ∈ blanks, isSpace c = true) (hgap : ∀ c ∈ gap, isSpace c = true)
    (hspace : ∀ c ∈ a, isSpace c = false) (hcomma : ',' ∉ a) :
    readOperands op (blanks ++ (rd.text ++ ',' :: (gap ++ a)))
      = (readAddress a).map fun (offset, base) => { op, rd := rd.number, offset, base } := by
  have hnot : ∀ s : List Char, (∀ c ∈ s, isSpace c = true) → ',' ∉ s := fun s hs hc =>
    absurd (hs ',' hc) (by decide)
  have hfirst : ',' ∉ blanks ++ rd.text := by
    refine List.not_mem_append (hnot blanks hblanks) ?_
    exact not_mem_of_name (abi_text rd).2 (by simp)
  have hsecond : ',' ∉ gap ++ a := List.not_mem_append (hnot gap hgap) hcomma
  have hsplit : split [','] (blanks ++ (rd.text ++ ',' :: (gap ++ a)))
      = [blanks ++ rd.text, gap ++ a] := by
    rw [← List.append_assoc, split_cons_append hfirst, split_of_not_mem hsecond]
  have hrd : strip (blanks ++ rd.text) = rd.text :=
    strip_space_append hblanks (not_space_of_name (abi_text rd).2)
  have ha : strip (gap ++ a) = a := strip_space_append hgap hspace
  unfold readOperands
  rw [hsplit]
  simp [hrd, ha, readRegister_text]

/-- The mnemonic is what stands before the first white space. -/
theorem readLoad_eq (op : LoadOp) {blanks s : List Char} (hne : blanks ≠ [])
    (hblanks : ∀ c ∈ blanks, isSpace c = true) :
    readLoad (op.text ++ (blanks ++ s)) = readOperands op (blanks ++ s) := by
  obtain ⟨b, blanks, rfl⟩ := List.exists_cons_of_ne_nil hne
  have hb : isSpace b = true := hblanks b (List.mem_cons_self ..)
  have hop : ∀ c ∈ op.text, (!isSpace c) = true := by
    intro c hc
    rw [not_space_of_name (op_text op).2 c hc]
    rfl
  have htake : (op.text ++ (b :: blanks ++ s)).takeWhile (!isSpace ·) = op.text := by
    rw [List.takeWhile_append_of_pos hop, List.cons_append,
      List.takeWhile_cons_of_neg (by simp [hb]), List.append_nil]
  have hdrop : (op.text ++ (b :: blanks ++ s)).dropWhile (!isSpace ·) = b :: blanks ++ s := by
    rw [List.dropWhile_append_of_pos hop, List.cons_append,
      List.dropWhile_cons_of_neg (by simp [hb])]
  have hfind : LoadOp.all.find? (fun o => o.text = op.text) = some op := by
    cases op <;> decide
  unfold readLoad
  rw [htake, hdrop, hfind]
  rfl

/-- A load line, however it is spaced. -/
theorem readLoad_operands (op : LoadOp) {blanks gap a : List Char} (rd : Abi) (hb : blanks ≠ [])
    (hblanks : ∀ c ∈ blanks, isSpace c = true) (hgap : ∀ c ∈ gap, isSpace c = true)
    (hspace : ∀ c ∈ a, isSpace c = false) (hcomma : ',' ∉ a) :
    readLoad (op.text ++ (blanks ++ (rd.text ++ ',' :: (gap ++ a))))
      = (readAddress a).map fun (offset, base) => { op, rd := rd.number, offset, base } := by
  rw [readLoad_eq op hb hblanks, readOperands_eq op rd hblanks hgap hspace hcomma]

/-! ## What the patch does -/

section Spec

variable (op : LoadOp) (rd rs : Abi)

/-- The base register of the patched load. -/
def patchBase : Abi := if rd.number = rs.number then .t 6 else rs

/-- The registers at the first copy. -/
def afterMove (regs : BitVec 5 → BitVec 64) : BitVec 5 → BitVec 64 :=
  if rd.number = rs.number then writeReg (Abi.t 6).number (regs rd.number) regs else regs

/-- At both copies the base holds what `rs` held before the line. -/
def BaseHolds : Prop :=
  ∀ regs, afterMove rd rs regs (patchBase rd rs).number = regs rs.number ∧
    ∀ loaded, writeReg rd.number loaded (afterMove rd rs regs) (patchBase rd rs).number
      = regs rs.number

/-- A `mv t6, rd` where the load overwrites its own base, and two copies of the load. -/
def RightPatch (v : ℤ) (patch : List Char) : Prop :=
  BaseHolds rd rs ∧ ∃ copy,
    patch = (if rd.number = rs.number then moveLine rd.text else []) ++ twice copy ∧
      readLoad copy = some { op, rd := rd.number, offset := v, base := (patchBase rd rs).number }

end Spec

theorem writeReg_of_ne {r q : BitVec 5} (h : q ≠ r) (v : BitVec 64) (regs : BitVec 5 → BitVec 64) :
    writeReg r v regs q = regs q := by
  unfold writeReg
  split
  · rfl
  · exact Function.update_of_ne h v regs

theorem baseHolds {rd rs : Abi} (hrd : rd ≠ .t 6) : BaseHolds rd rs := by
  have ht6 : (Abi.t 6).number ≠ rd.number := by
    have hall : ∀ r ∈ Abi.all, r ≠ .t 6 → (Abi.t 6).number ≠ r.number := by decide
    exact hall rd (mem_abi_all rd) hrd
  intro regs
  unfold afterMove patchBase
  split
  · rename_i hsame
    have hmove : writeReg (Abi.t 6).number (regs rd.number) regs (Abi.t 6).number
        = regs rd.number := by
      have hzero : (Abi.t 6).number ≠ 0 := by decide
      rw [writeReg, if_neg hzero, Function.update_self]
    refine ⟨by rw [hmove, hsame], fun loaded => ?_⟩
    rw [writeReg_of_ne ht6, hmove, hsame]
  · rename_i hother
    exact ⟨rfl, fun loaded => writeReg_of_ne (Ne.symm hother) loaded regs⟩

section Load

variable {op : LoadOp} {blanks offset : List Char} {rd rs : Abi} {v : ℤ}

theorem address_all (hoff : offset.all nameChar = true) (rs : Abi) :
    (∀ c ∈ address offset rs, isSpace c = false) ∧ ',' ∉ address offset rs := by
  have hparts : ∀ c ∈ address offset rs,
      c ∈ offset ∨ c ∈ rs.text ∨ c = '(' ∨ c = ')' := by
    intro c hc
    simp only [address, List.mem_append, List.mem_cons, List.not_mem_nil, or_false] at hc
    tauto
  refine ⟨fun c hc => ?_, fun hc => ?_⟩
  · rcases hparts c hc with h | h | rfl | rfl
    · exact not_space_of_name hoff c h
    · exact not_space_of_name (abi_text rs).2 c h
    · decide
    · decide
  · rcases hparts ',' hc with h | h | h | h
    · exact not_mem_of_name hoff (by simp) h
    · exact not_mem_of_name (abi_text rs).2 (by simp) h
    · exact absurd h (by decide)
    · exact absurd h (by decide)

theorem take_loadLine : (loadLine op blanks rd offset rs).take 2 ∈ loadPrefixes := by
  have hop : op.text.take 2 ∈ loadPrefixes ∧ 2 ≤ op.text.length := by cases op <;> decide
  unfold loadLine
  rw [List.take_append_of_le_length hop.2]
  exact hop.1

/-- The line a load is rewritten to. -/
def rewritten (op : LoadOp) (offset : List Char) (rd rs : Abi) : List Char :=
  op.text ++ '\t' :: (rd.text ++ (", ".toList ++ replace rd.text "t6".toList (address offset rs)))

theorem patchLoad_loadLine (hoff : offset.all nameChar = true) (hne : blanks ≠ [])
    (hblanks : ∀ c ∈ blanks, isSpace c = true) :
    patchLoad (loadLine op blanks rd offset rs)
      = if rd.text <:+: address offset rs then some (moveLine rd.text, rewritten op offset rd rs)
        else some ([], loadLine op blanks rd offset rs) := by
  obtain ⟨haspace, hacomma⟩ := address_all hoff rs
  have hargs : ∀ c ∈ rd.text ++ ',' :: address offset rs, isSpace c = false := by
    intro c hc
    rcases List.mem_append.mp hc with hc | hc
    · exact not_space_of_name (abi_text rd).2 c hc
    · rcases List.mem_cons.mp hc with rfl | hc
      · decide
      · exact haspace c hc
  have hwords : words (loadLine op blanks rd offset rs)
      = [op.text, rd.text ++ ',' :: address offset rs] :=
    words_pair (not_space_of_name (op_text op).2) (op_text op).1 hblanks hne hargs (by simp)
  have hsplit : split [','] (rd.text ++ ',' :: address offset rs)
      = [rd.text, address offset rs] := by
    rw [split_cons_append (not_mem_of_name (abi_text rd).2 (by simp)), split_of_not_mem hacomma]
  unfold patchLoad
  simp only [hwords, hsplit]
  rfl

theorem instrPatch_loadLine (hoff : offset.all nameChar = true) (hne : blanks ≠ [])
    (hblanks : ∀ c ∈ blanks, isSpace c = true) :
    instrPatch (loadLine op blanks rd offset rs)
      = some (if rd.text <:+: address offset rs then
          moveLine rd.text ++ twice (rewritten op offset rd rs)
        else twice (loadLine op blanks rd offset rs)) := by
  unfold instrPatch
  rw [if_pos take_loadLine, patchLoad_loadLine hoff hne hblanks]
  split <;> rfl

theorem text_infix_address_iff :
    rd.text <:+: address offset rs ↔ rd.text <:+: offset ∨ rd.text <:+: rs.text := by
  have hopen : '(' ∉ rd.text := not_mem_of_name (abi_text rd).2 (by simp)
  have hclose : ')' ∉ rd.text := not_mem_of_name (abi_text rd).2 (by simp)
  have hnil : ¬ rd.text <:+: [] := fun h => (abi_text rd).1 (List.infix_nil.mp h)
  unfold address
  rw [infix_append_cons_iff hopen, infix_append_cons_iff hclose, or_iff_left hnil]

/-! ## What is read back -/

theorem readLoad_loadLine (h : readOffset offset = some v) (hne : blanks ≠ [])
    (hblanks : ∀ c ∈ blanks, isSpace c = true) :
    readLoad (loadLine op blanks rd offset rs)
      = some { op, rd := rd.number, offset := v, base := rs.number } := by
  obtain ⟨haspace, hacomma⟩ := address_all (name_of_readOffset h) rs
  have hgap : ∀ c ∈ ([] : List Char), isSpace c = true := by simp
  refine (readLoad_operands op rd hne hblanks hgap haspace hacomma).trans ?_
  rw [readAddress_address h]
  rfl

/-- A load begins with an `l`. -/
theorem head_of_readLoad {line : List Char} {l : Load} (h : readLoad line = some l) :
    line.head? = some 'l' := by
  obtain ⟨op, hop, -⟩ := Option.bind_eq_some_iff.mp h
  have htext : op.text = line.takeWhile (!isSpace ·) := by
    simpa using List.find?_some hop
  have hhead : op.text.head? = some 'l' := by cases op <;> decide
  have hpre : op.text <+: line := htext ▸ List.takeWhile_prefix _
  obtain ⟨rest, rfl⟩ := hpre
  rw [List.head?_append_of_ne_nil _ (op_text op).1, hhead]

theorem head_moveLine (name s : List Char) : (moveLine name ++ s).head? = some 'm' := by
  have hhead : "mv t6, ".toList.head? = some 'm' := by decide
  unfold moveLine
  rw [List.append_assoc, List.head?_append_of_ne_nil _ (by decide), hhead]

theorem twice_inj {s t : List Char} (h : twice s = twice t) : s = t := by
  have hlen : s.length = t.length := by
    have hlen := congrArg List.length h
    simp only [twice, List.length_append, List.length_cons, List.length_nil] at hlen
    omega
  exact (List.append_inj h hlen).1

/-- What begins with a `mv` is not two loads. -/
theorem moveLine_ne_twice {name s t : List Char} {l : Load} (h : readLoad t = some l) :
    moveLine name ++ s ≠ twice t := by
  intro heq
  have hne : t ≠ [] := by
    intro hnil
    obtain rfl := hnil
    exact absurd (head_of_readLoad h) (by simp)
  have hhead : (twice t).head? = some 'l' := by
    rw [twice, List.head?_append_of_ne_nil _ hne, head_of_readLoad h]
  rw [← heq, head_moveLine] at hhead
  exact absurd hhead (by decide)

/-- The rewritten line reads as its new address does. -/
theorem readLoad_rewritten (hoff : offset.all nameChar = true) :
    readLoad (rewritten op offset rd rs)
      = (readAddress (replace rd.text "t6".toList (address offset rs))).map
          fun (offset, base) => { op, rd := rd.number, offset, base } := by
  obtain ⟨haspace, hacomma⟩ := address_all hoff rs
  have hmem : ∀ c ∈ replace rd.text "t6".toList (address offset rs),
      c ∈ "t6".toList ∨ c ∈ address offset rs := fun c => mem_of_mem_replace (abi_text rd).1
  have ht6 : "t6".toList.all nameChar = true := by decide +kernel
  have hspace : ∀ c ∈ replace rd.text "t6".toList (address offset rs), isSpace c = false := by
    intro c hc
    rcases hmem c hc with hc | hc
    · exact not_space_of_name ht6 c hc
    · exact haspace c hc
  have hcomma : ',' ∉ replace rd.text "t6".toList (address offset rs) := by
    intro hc
    rcases hmem ',' hc with hc | hc
    · exact not_mem_of_name ht6 (by simp) hc
    · exact hacomma hc
  have htab : ∀ c ∈ ['\t'], isSpace c = true := by simpa using (by decide : isSpace '\t' = true)
  have hblank : ∀ c ∈ [' '], isSpace c = true := by simpa using (by decide : isSpace ' ' = true)
  exact readLoad_operands op rd (List.cons_ne_nil _ _) htab hblank hspace hcomma

/-- Where the name occurs in the offset, a `t6` gets into the offset. -/
theorem readAddress_replace_eq_none (hoff : offset.all nameChar = true)
    (h : rd.text <:+: offset) :
    readAddress (replace rd.text "t6".toList (address offset rs)) = none := by
  obtain ⟨p, s, rfl, hp⟩ := exists_clean_of_infix h
  have hopen : '(' ∉ p := fun hc => not_mem_of_name hoff (c := '(') (by simp) (by simp [hc])
  have hcut : address (p ++ (rd.text ++ s)) rs = p ++ (rd.text ++ address s rs) := by
    simp [address]
  rw [hcut, replace_append (abi_text rd).1 hp]
  exact readAddress_eq_none hopen

/-- Where it is the base register and not in the offset, the base is replaced. -/
theorem replace_address (h : ¬ rd.text <:+: offset) :
    replace rd.text "t6".toList (address offset rd) = address offset (.t 6) := by
  have hopen : '(' ∉ rd.text := not_mem_of_name (abi_text rd).2 (by simp)
  have hclose : ')' ∉ rd.text := not_mem_of_name (abi_text rd).2 (by simp)
  have hnil : ¬ rd.text <:+: [] := fun h => (abi_text rd).1 (List.infix_nil.mp h)
  have hcut : address offset rd = offset ++ ['('] ++ (rd.text ++ [')']) := by simp [address]
  have hrest : replace rd.text "t6".toList [')'] = [')'] :=
    replace_clean (abi_text rd).1 (clean_concat (p := []) hclose hnil)
  rw [hcut, replace_append (abi_text rd).1 (clean_concat hopen h), hrest]
  have ht6 : (Abi.t 6).text = "t6".toList := by decide
  simp [address, ht6]

/-- The patch of a load is right where `in` sees what the registers say, and only there. -/
theorem right_patch_iff (hrd : rd ≠ .t 6) (hv : readOffset offset = some v) (hne : blanks ≠ [])
    (hblanks : ∀ c ∈ blanks, isSpace c = true) :
    (∃ patch, instrPatch (loadLine op blanks rd offset rs) = some patch ∧
        RightPatch op rd rs v patch)
      ↔ ¬ rd.text <:+: offset ∧ (rd, rs) ∉ confusedNames := by
  have hoff := name_of_readOffset hv
  have hline : readLoad (loadLine op blanks rd offset rs) = _ := readLoad_loadLine hv hne hblanks
  rw [instrPatch_loadLine hoff hne hblanks, mem_confusedNames_iff, not_not]
  simp only [Option.some.injEq, exists_eq_left']
  unfold RightPatch
  rw [and_iff_right (baseHolds hrd)]
  by_cases hin : rd.text <:+: address offset rs
  · have hocc := text_infix_address_iff.mp hin
    rw [if_pos hin]
    by_cases hsame : rd.number = rs.number
    · rw [if_pos hsame]
      constructor
      · intro hcopy
        obtain ⟨copy, heq, hread⟩ := hcopy
        obtain rfl := twice_inj (List.append_cancel_left heq)
        have hnoff : ¬ rd.text <:+: offset := by
          intro h
          rw [readLoad_rewritten hoff, readAddress_replace_eq_none hoff h] at hread
          exact absurd hread (by simp)
        exact ⟨hnoff, iff_of_true (hocc.resolve_left hnoff) hsame⟩
      · intro hright
        obtain ⟨hnoff, hiff⟩ := hright
        obtain rfl := eq_of_infix (hiff.mpr hsame) hsame
        refine ⟨_, rfl, ?_⟩
        rw [readLoad_rewritten hoff, replace_address hnoff, readAddress_address hv]
        simp [patchBase]
    · rw [if_neg hsame]
      refine iff_of_false ?_ ?_
      · intro hcopy
        obtain ⟨copy, heq, hread⟩ := hcopy
        exact moveLine_ne_twice hread heq
      · intro hright
        obtain ⟨hnoff, hiff⟩ := hright
        exact hsame (hiff.mp (hocc.resolve_left hnoff))
  · obtain ⟨hnoff, hnrs⟩ := not_or.mp (text_infix_address_iff.not.mp hin)
    rw [if_neg hin]
    by_cases hsame : rd.number = rs.number
    · rw [if_pos hsame]
      refine iff_of_false ?_ ?_
      · intro hcopy
        obtain ⟨copy, heq, hread⟩ := hcopy
        exact moveLine_ne_twice hline heq.symm
      · intro hright
        obtain ⟨-, hiff⟩ := hright
        exact hnrs (hiff.mpr hsame)
    · rw [if_neg hsame]
      refine iff_of_true ⟨_, rfl, ?_⟩ ⟨hnoff, iff_of_false hnrs hsame⟩
      rw [hline]
      simp [patchBase, hsame]

end Load

/-! ## Other lines -/

theorem patchLoad_cases {instr patch copy : List Char} (h : patchLoad instr = some (patch, copy)) :
    patch = [] ∧ copy = instr ∨ ∃ rd, patch = moveLine rd := by
  unfold patchLoad at h
  split at h
  · split at h
    · rename_i rd address rest hsplit
      split at h
      · obtain ⟨rfl, -⟩ := Prod.mk.inj (Option.some.inj h)
        exact Or.inr ⟨rd, rfl⟩
      · obtain ⟨rfl, rfl⟩ := Prod.mk.inj (Option.some.inj h)
        exact Or.inl ⟨rfl, rfl⟩
    · exact absurd h (by simp)
  · exact absurd h (by simp)

theorem head_of_loadPrefix {line : List Char} (h : line.take 2 ∈ loadPrefixes) :
    line.head? = some 'l' := by
  have hall : ∀ p ∈ loadPrefixes, p.head? = some 'l' := by decide
  have hhead := hall _ h
  rwa [List.head?_take, if_neg (by decide)] at hhead

/-- A line is emitted once and unchanged unless it begins as a load does. -/
theorem instrPatch_once_iff (line : List Char) :
    instrPatch line = some (line ++ ['\n']) ↔ line.take 2 ∉ loadPrefixes := by
  unfold instrPatch
  by_cases hpre : line.take 2 ∈ loadPrefixes
  · rw [if_pos hpre]
    refine iff_of_false ?_ (not_not.mpr hpre)
    intro h
    obtain ⟨⟨patch, copy⟩, hload, heq⟩ := Option.map_eq_some_iff.mp h
    obtain ⟨rfl, rfl⟩ | ⟨rd, rfl⟩ := patchLoad_cases hload
    · have hlen := congrArg List.length heq
      simp only [twice, List.length_append, List.length_cons, List.length_nil] at hlen
      omega
    · have hhead := congrArg List.head? heq
      have hne : line ≠ [] := by
        intro hnil
        obtain rfl := hnil
        exact absurd hpre (by decide)
      rw [head_moveLine, List.head?_append_of_ne_nil _ hne, head_of_loadPrefix hpre] at hhead
      exact absurd hhead (by decide)
  · rw [if_neg hpre]
    exact iff_of_true rfl hpre

/-! ## The whole program -/

/-- Every line of a program is patched on its own, in order. -/
theorem patchProgram_eq {lines : List (List Char)} (hne : lines ≠ [])
    (hlines : ∀ line ∈ lines, '\n' ∉ line ∧ line ≠ [] ∧ strip line = line) :
    patchProgram (['\n'].intercalate lines) = (lines.mapM instrPatch).map List.flatten := by
  have hstrip : lines.map strip = lines := by
    have h := List.map_congr_left (g := id) fun line hline => (hlines line hline).2.2
    rwa [List.map_id] at h
  have hfilter : lines.filter (fun line => line ≠ []) = lines :=
    List.filter_eq_self.mpr fun line hline => by simpa using (hlines line hline).2.1
  unfold patchProgram
  rw [split_lines hne fun line hline => (hlines line hline).1]
  simp only [hstrip, hfilter]

/-- The lines are stripped of white space, and the empty ones are dropped. -/
example : patchProgram "main:\n\tld a5,8(a5)\n\n\tret".toList
    = some "main:\nmv t6, a5\nld\ta5, 8(t6)\nld\ta5, 8(t6)\nret\n".toList := by decide +kernel

/-! ## Both kinds of lines -/

/--
**When the pass preserves addresses.** A load is patched rightly exactly when the name of
its destination does not occur in the offset and `in` sees of the two registers what
their numbers say; any other line is emitted once and unchanged exactly when its first
two characters are not those of a load.
-/
theorem load_patch_iff (op : LoadOp) (blanks : List Char) (rd : Abi) (offset : List Char)
    (rs : Abi) (v : ℤ) (line : List Char) :
    (blanks ≠ [] → (∀ c ∈ blanks, isSpace c = true) → rd ≠ .t 6 → rs ≠ .t 6 →
      readOffset offset = some v →
      ((∃ patch, instrPatch (loadLine op blanks rd offset rs) = some patch ∧
          RightPatch op rd rs v patch)
        ↔ ¬ rd.text <:+: offset ∧ (rd, rs) ∉ confusedNames)) ∧
    (line ≠ [] → strip line = line → ¬ IsLoadLine line →
      (instrPatch line = some (line ++ ['\n']) ↔ line.take 2 ∉ loadPrefixes)) :=
  ⟨fun hne hblanks hrd _ hv => right_patch_iff hrd hv hne hblanks,
    fun _ _ _ => instrPatch_once_iff line⟩

/-- A doubled load through its own base, and a label that begins as a load does. -/
theorem load_patch_self :
    ((∃ patch, instrPatch (loadLine .ld ['\t'] (.a 5) ['8'] (.a 5)) = some patch ∧
        RightPatch .ld (.a 5) (.a 5) 8 patch)
      ↔ ¬ (Abi.a 5).text <:+: ['8'] ∧ (Abi.a 5, Abi.a 5) ∉ confusedNames) ∧
    (instrPatch "ldone:".toList = some ("ldone:".toList ++ ['\n'])
      ↔ "ldone:".toList.take 2 ∉ loadPrefixes) := by
  have htab : ∀ c ∈ ['\t'], isSpace c = true := by simpa using (by decide : isSpace '\t' = true)
  have hlabel : ¬ IsLoadLine "ldone:".toList := by
    intro h
    obtain ⟨op, hop⟩ := h
    cases op <;> exact absurd hop (by decide +kernel)
  obtain ⟨hload, hother⟩ :=
    load_patch_iff .ld ['\t'] (.a 5) ['8'] (.a 5) 8 "ldone:".toList
  exact ⟨hload (by decide) htab (by decide) (by decide) (by decide +kernel),
    hother (by decide) (by decide +kernel) hlabel⟩

/-- `ld s1,0(s10)` becomes a load through `t60`. -/
theorem load_patch_wrong :
    ¬ ((∀ (op : LoadOp) (blanks : List Char) (rd : Abi) (offset : List Char) (rs : Abi) (v : ℤ),
        blanks ≠ [] → (∀ c ∈ blanks, isSpace c = true) → rd ≠ .t 6 → rs ≠ .t 6 →
        readOffset offset = some v →
        ∃ patch, instrPatch (loadLine op blanks rd offset rs) = some patch ∧
          RightPatch op rd rs v patch) ∧
      ∀ line : List Char, line ≠ [] → strip line = line → ¬ IsLoadLine line →
        instrPatch line = some (line ++ ['\n'])) := by
  intro hpatched
  obtain ⟨hloads, -⟩ := hpatched
  have htab : ∀ c ∈ ['\t'], isSpace c = true := by simpa using (by decide : isSpace '\t' = true)
  have hv : readOffset ['0'] = some 0 := by decide +kernel
  have hright := hloads .ld ['\t'] (.s 1) ['0'] (.s 10) 0 (by decide) htab (by decide)
    (by decide) hv
  exact absurd ((right_patch_iff (by decide) hv (by decide) htab).mp hright).2 (by decide)

end Soft

end PassiFlo
