import PassiFlo.Lib.Numeral

/-!
# The data memory image

The part of `export_opcode_rv.py` that builds `dmem_init`: an Intel HEX record of zeros
for every word of the data memory, and over these a record for every word of the
`.rodata` sections. A record is put together from the text of its parts; the texts that
`readelf`, `objcopy` and `hexdump` print are inputs.
-/

namespace PassiFlo

namespace Soft

open Text

/-- `hex(n)[2:]`. -/
def hexDigits (n : ℤ) : List Char := (hex n).drop 2

/-- `f"08{hex(index)[2:]:0>4}00{data}"`. -/
def record (index : ℤ) (data : List Char) : List Char :=
  "08".toList ++ (List.leftpad 4 '0' (hexDigits index) ++ ("00".toList ++ data))

/-- `[record[i:i+2] for i in range(0, len(record), 2)]`. -/
def pairs : List Char → List (List Char)
  | a :: b :: s => [a, b] :: pairs s
  | [a] => [[a]]
  | [] => []

/-- The sum of the bytes of a record. -/
def checksum (record : List Char) : Option ℤ :=
  ((pairs record).mapM fun a => int 16 ('0' :: 'x' :: a)).map List.sum

/-- `s[-2:]`. -/
def lastTwo (s : List Char) : List Char := s.drop (s.length - 2)

/-- The line of a record. -/
def recordLine (index : ℤ) (data : List Char) : Option (List Char) :=
  let record := record index data
  (checksum record).map fun checksum =>
    ':' :: (record ++ lastTwo (hex ((1 : ℤ) <<< (32 : ℕ) + -checksum)))

/-- `l[index] = x`; a negative index counts from the end. -/
def setItem {α : Type*} (l : List α) (index : ℤ) (x : α) : Option (List α) :=
  let i := if index < 0 then index + l.length else index
  if 0 ≤ i ∧ i < l.length then some (l.set i.toNat x) else none

/-- `dmem_init` before the sections. -/
def zeroImage : Option (List (List Char)) :=
  (List.range 4096).mapM fun i : ℕ => recordLine i (List.replicate 16 '0')

/-- The words of one section, laid down from `address` on. -/
def layDown (address : ℤ) : List (List Char) → List (List Char) → Option (List (List Char))
  | [], dmemInit => some dmemInit
  | data :: rodata, dmemInit => do
      let line ← recordLine address data
      let dmemInit ← setItem dmemInit address line
      layDown (address + 1) rodata dmemInit

/-- `rodata_sections`: the fields of their lines in the symbol table. -/
def rodataSections (symtab : List Char) : List (List (List Char)) :=
  let sections := ((split ['\n'] symtab).filter fun symbol => "SECTION".toList <:+: symbol).map
    fun symbol => words (strip symbol)
  sections.filter fun s => s.getLast?.any fun name => "rodata".toList <:+: name

/-- One section; `dump` is what `hexdump` prints of the section of a name. -/
def addSection (dump : List Char → List Char) (dmemInit : List (List Char))
    (sectionFields : List (List Char)) : Option (List (List Char)) := do
  let name ← sectionFields.getLast?
  let value ← sectionFields[1]?
  let address ← int 16 value
  layDown (address >>> (3 : ℕ)) (split ['\n'] (strip (dump name))) dmemInit

/-- The text of `dmem_init`; nothing where it raises an exception. -/
def dmemInit (symtab : List Char) (dump : List Char → List Char) : Option (List Char) := do
  let zeros ← zeroImage
  let image ← (rodataSections symtab).foldlM (addSection dump) zeros
  some (['\n'].intercalate (image ++ [":00000001ff".toList]))

/-- `hexdump` with the format `1/8 "%016x\n"`: a line of 16 digits for every word. -/
def hexdump (words : List (BitVec 64)) : List Char :=
  words.flatMap fun w => List.leftpad 16 '0' (Nat.toDigits 16 w.toNat) ++ ['\n']

end Soft

end PassiFlo
