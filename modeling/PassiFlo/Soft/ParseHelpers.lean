import PassiFlo.Lib.Text

/-!
# Patching loads

`instr_patch` of `parse_helpers.py`, and the loop of `rv_binary_patcher.py` that runs it
over the lines of an assembly file. The data RAM answers one cycle late, so every load is
emitted twice; a load into its own base register takes `t6` as its base. All of it is
done on the text of the line.
-/

namespace PassiFlo

namespace Soft

open Text

/-- What `instr[:2]` is compared with. -/
def loadPrefixes : List (List Char) := ["ld".toList, "lw".toList, "lh".toList, "lb".toList]

/-- The line `mv t6, rd`. -/
def moveLine (rd : List Char) : List Char := "mv t6, ".toList ++ (rd ++ ['\n'])

/--
The branch of the loads: what is put before the copies, and the line that is copied.
Nothing where the line has not two words, or the second of them no comma.
-/
def patchLoad (instr : List Char) : Option (List Char × List Char) :=
  match words instr with
  | [opcode, args] =>
      match split [','] args with
      | rd :: address :: _ =>
          if rd <:+: address then
            let address := replace rd "t6".toList address
            some (moveLine rd, opcode ++ ('\t' :: (rd ++ (", ".toList ++ address))))
          else some ([], instr)
      | _ => none
  | _ => none

/-- A line, twice. -/
def twice (instr : List Char) : List Char := instr ++ '\n' :: (instr ++ ['\n'])

/-- `instr_patch`; nothing where it raises an exception. -/
def instrPatch (instr : List Char) : Option (List Char) :=
  if instr.take 2 ∈ loadPrefixes then
    (patchLoad instr).map fun (patch, instr) => patch ++ twice instr
  else some (instr ++ ['\n'])

/-- The patched program. -/
def patchProgram (text : List Char) : Option (List Char) :=
  let prog := (split ['\n'] text).map strip
  let prog := prog.filter fun line => line ≠ []
  (prog.mapM instrPatch).map List.flatten

end Soft

end PassiFlo
