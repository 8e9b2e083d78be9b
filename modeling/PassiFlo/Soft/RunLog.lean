import PassiFlo.Lib.Numeral

/-!
# The log of an experiment

A run of the injector is reported by three programs. `main` of the Nios prints it with
`alt_printf` as one line; `file_write_line` of `fault-injection.py` rewrites the line as
a paragraph of `data.dump`; `parse_run` of `generate_graph.py` reads the paragraph back
as two lists of numbers.
-/

namespace PassiFlo

namespace Soft

open Text

/-! ## `alt_printf` -/

/-- `'0' + digit` or `'a' + digit - 10`. -/
def digitText (digit : ℕ) : Char :=
  if digit ≤ 9 then Char.ofNat (0x30 + digit) else Char.ofNat (0x61 + digit - 10)

/-- `v & (0xF << digit_shift)`; the shifts of the loops are the multiples of 4. -/
def masked (v : BitVec 32) (shift : ℕ) : BitVec 32 := v &&& (0xf#32 <<< (4 * shift))

/-- The loop that finds the first digit that is not zero; there is one unless `v` is 0. -/
def digitShift (v : BitVec 32) : ℕ → ℕ
  | 0 => 0
  | shift + 1 => if masked v (shift + 1) = 0 then digitShift v shift else shift + 1

/-- The loop that prints the digits. -/
def printDigits (v : BitVec 32) : ℕ → List Char
  | 0 => [digitText (masked v 0 >>> 0).toNat]
  | shift + 1 =>
      digitText (masked v (shift + 1) >>> (4 * (shift + 1))).toNat :: printDigits v shift

/-- `%x`. -/
def printHex (v : BitVec 32) : List Char :=
  if v = 0 then ['0'] else printDigits v (digitShift v 7)

/-- An argument of `alt_printf`. -/
inductive Arg
  | word (v : BitVec 32)
  | string (s : List Char)

/-- `alt_printf`; nothing where an argument is missing or of the wrong kind. -/
def altPrintf : List Char → List Arg → Option (List Char)
  | [], _ => some []
  | ['%'], _ => some []
  | '%' :: c :: fmt, args =>
      if c = '%' then (altPrintf fmt args).map ('%' :: ·)
      else if c = 'c' then
        match args with
        | .word v :: args => (altPrintf fmt args).map (Char.ofNat (v.toNat % 256) :: ·)
        | _ => none
      else if c = 'x' then
        match args with
        | .word v :: args => (altPrintf fmt args).map (printHex v ++ ·)
        | _ => none
      else if c = 's' then
        match args with
        | .string s :: args => (altPrintf fmt args).map (s ++ ·)
        | _ => none
      else altPrintf fmt args
  | c :: fmt, args => (altPrintf fmt args).map (c :: ·)

/-! ## The injector -/

/-- What the injector reads of the processor, and the macro it compares `watchdog` with. -/
structure Run where
  injectedPc : BitVec 64
  currentVal : BitVec 64
  newVal : BitVec 64
  pc : BitVec 64
  /-- `a0`. -/
  result : BitVec 64
  watchdog : BitVec 32
  programMaxDuration : BitVec 32
  memory : Fin 4096 → BitVec 64

/-- The two data ports show a 64-bit value in halves. -/
def ports (v : BitVec 64) : List Arg := [.word (v.extractLsb' 32 32), .word (v.extractLsb' 0 32)]

/-- The result, unless the watchdog ran out. -/
def Run.printResult (run : Run) : Option (List Char) :=
  if run.watchdog > run.programMaxDuration then altPrintf "result(reg a0):dnf,".toList []
  else altPrintf "result(reg a0):0x%x_%x,".toList (ports run.result)

/-- One round of the dump: the word at the address `i = 8 * k`. -/
def Run.printWord (run : Run) (k : Fin 4096) : Option (List Char) :=
  altPrintf "0x%x:0x%x_0x%x,".toList
    (.word (BitVec.ofNat 32 (8 * k.val) >>> 3) :: ports (run.memory k))

/-- What `main` prints once the processor has stalled. -/
def Run.report (run : Run) : Option (List Char) := do
  let injectedPc ← altPrintf "PC(injected):0x%x_%x,".toList (ports run.injectedPc)
  let currentVal ← altPrintf "current_val(injected):0x%x_%x,".toList (ports run.currentVal)
  let newVal ← altPrintf "new_val(injected):0x%x_%x,".toList (ports run.newVal)
  let pc ← altPrintf "PC:0x%x_%x,".toList (ports run.pc)
  let result ← run.printResult
  let duration ← altPrintf "duration:0x%x".toList [.word run.watchdog]
  let heading ← altPrintf "||memdump||".toList []
  let dump ← (List.finRange 4096).mapM run.printWord
  let newline ← altPrintf ['\n'] []
  some (injectedPc ++ (currentVal ++ (newVal ++ (pc ++ (result ++ (duration ++ (heading
    ++ (dump.flatten ++ newline))))))))

/-! ## `fault-injection.py` -/

/-- `f"{n:4}"`. -/
def width4 (n : ℤ) : List Char := List.leftpad 4 ' ' (signed (Nat.toDigits 10) n)

/-- `f"{n:08x}"`; a sign takes one of the places. -/
def hex08 (n : ℤ) : List Char :=
  if n < 0 then '-' :: List.leftpad 7 '0' (Nat.toDigits 16 n.natAbs)
  else List.leftpad 8 '0' (Nat.toDigits 16 n.natAbs)

/-- One line of `parse_memdump`. -/
def parseWord (line : List Char) : Option (List Char) :=
  match split [':'] line with
  | [word, data] =>
      match split ['_'] data with
      | high :: low :: _ => do
          let word ← int 16 word
          let high ← int 16 high
          let low ← int 16 low
          some (width4 word ++ (":0x".toList ++ (hex08 high ++ hex08 low)))
      | _ => none
  | _ => none

/-- `parse_memdump`, with its default radix. -/
def parseMemdump (dump : List (List Char)) : Option (List (List Char)) := dump.mapM parseWord

/-- What `run_test` passes to `file_write_line`. -/
structure Injection where
  reg : ℕ
  flippedBit : ℕ
  delay : ℕ

/-- What `file_write_line` writes; nothing where it raises an exception. -/
def fileWriteLine (line : List Char) (injection : Injection) : Option (List Char) :=
  match split "||memdump||".toList line with
  | [registerResults, memdump] => do
      let memdump ← parseMemdump (split [','] memdump).dropLast
      let output := registerResults
        ++ (",reg:".toList ++ (Nat.toDigits 10 injection.reg
        ++ (",flipped:".toList ++ (Nat.toDigits 10 injection.flippedBit
        ++ (",delay:".toList ++ Nat.toDigits 10 injection.delay)))))
      some (output ++ ("\nmemdump:\n".toList ++ (['\n'].intercalate memdump ++ "\n\n".toList)))
  | _ => none

/-- A run and what was injected in it. -/
structure Experiment where
  run : Run
  injection : Injection

/-- What `run_test` appends to the file. -/
def Experiment.logged (e : Experiment) : Option (List Char) :=
  e.run.report.bind fun line => fileWriteLine line e.injection

/-- The file `data.dump` of some runs. -/
def dataDump (runs : List Experiment) : Option (List Char) :=
  (runs.mapM Experiment.logged).map List.flatten

/-! ## `generate_graph.py` -/

/-- `parse_num`; nothing where it raises an exception. -/
def parseNum (num : List Char) : Option ℤ :=
  if "0x".toList <:+: num then
    if '_' ∈ num then
      match split ['_'] num with
      | [high, low] => do
          let high ← int 16 high
          let low ← int 16 low
          some (high <<< (32 : ℕ) + low)
      | _ => none
    else int 16 num
  else if num = "dnf".toList then some 0xffdeadffffc0deff
  else int 10 num

/-- `parse_num(elem.split(":")[1])`. -/
def parseElem (elem : List Char) : Option ℤ := ((split [':'] elem)[1]?).bind parseNum

/-- `parse_run`: the summary and the words of the dump. -/
def parseRun (results : List Char) : Option (List ℤ × List ℤ) :=
  match split "memdump:".toList results with
  | [summary, memdump] => do
      let summary ← (split [','] summary).mapM parseElem
      let memdump ← (split ['\n'] (strip memdump)).mapM parseElem
      some (summary, memdump)
  | _ => none

/-- The runs of a file. -/
def parseFile (text : List Char) : Option (List (List ℤ × List ℤ)) :=
  (split "\n\n".toList text.dropLast).mapM parseRun

end Soft

end PassiFlo
