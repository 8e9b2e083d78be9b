import PassiFlo.Proof.Cycle

/-!
# Set and clear

The injection program writes the mask to the data lines and then writes zero, "to avoid
flipping twice". It runs on the same clock as the core, so how many edges see the mask
is up to the compiler and the bus. The register file reads, xors and writes back on
every edge: what remains of an injection is the parity of that number.
-/

namespace PassiFlo

open Clocked

namespace Core

variable {C : Chip} {i : Inputs} {s : State} {r : BitVec 5} {m data : BitVec 64}

/-- The host holds `data` on the data lines, with register `r` selected for writing. -/
structure Injects (r : BitVec 5) (data : BitVec 64) (i : Inputs) : Prop where
  control : i.control = 0b00001#5
  addr : i.addr.extractLsb' 0 5 = r
  dataOut : i.dataOut = data

/-- `bitflip` and the write port, on the whole register file. -/
def bitflip (r : BitVec 5) (m : BitVec 64) (regs : BitVec 5 → BitVec 64) : BitVec 5 → BitVec 64 :=
  Function.update regs r (regs r ^^^ m)

@[simp] theorem bitflip_self (regs : BitVec 5 → BitVec 64) : bitflip r m regs r = regs r ^^^ m :=
  Function.update_self ..

theorem bitflip_of_ne {q : BitVec 5} (hq : q ≠ r) (regs : BitVec 5 → BitVec 64) :
    bitflip r m regs q = regs q := Function.update_of_ne hq ..

theorem bitflip_zero (r : BitVec 5) : bitflip r 0 = id := by
  funext regs
  have hx : regs r ^^^ 0 = regs r := BitVec.xor_zero
  rw [bitflip, hx, Function.update_eq_self, id]

theorem bitflip_involutive (r : BitVec 5) (m : BitVec 64) : Function.Involutive (bitflip r m) := by
  intro regs
  unfold bitflip
  rw [Function.update_self, Function.update_idem, BitVec.xor_assoc, BitVec.xor_self,
    BitVec.xor_zero, Function.update_eq_self]

/-- Only the empty mask flips nothing. -/
theorem xor_eq_self_iff (x : BitVec 64) : x = x ^^^ m ↔ m = 0 := by
  have hz : x ^^^ 0 = x := BitVec.xor_zero
  rw [← BitVec.xor_right_inj (x := m) x, hz, eq_comm]

/-- **One edge.** Whatever else the inputs say, reset included. -/
theorem cycle_injects (hr : r ≠ 0) (i : Inputs) (s : State) (hi : Injects r data i) :
    (cycle C i s).regs = bitflip r data s.regs := by
  have hwe : i.weDB = true := by rw [Inputs.weDB, hi.control]; rfl
  have hregs : (cycle C i s).regs =
      regfileNext true (i.addr.extractLsb' 0 5) (s.regs (i.addr.extractLsb' 0 5) ^^^ i.dataOut)
        s.regs := by
    simp only [cycle, posedge, decodeNext, hwe, Bool.or_true, if_true]
    rfl
  rw [hregs, hi.addr, hi.dataOut, regfileNext, if_pos (by simpa using hr)]
  rfl

/-- Edges that see the same data flip the register as often as there are edges. -/
theorem run_injects (hr : r ≠ 0) (is : List Inputs) (his : ∀ i ∈ is, Injects r data i)
    (s : State) : (run C is s).regs = (bitflip r data)^[is.length] s.regs :=
  run_iterate (cycle_injects hr) is his s

/-- Edges that see zero change no register. -/
theorem run_cleared (hr : r ≠ 0) (is : List Inputs) (his : ∀ i ∈ is, Injects r 0 i)
    (s : State) : (run C is s).regs = s.regs := by
  rw [run_injects hr is his s, bitflip_zero, Function.iterate_id, id]

/-- **Parity.** What the whole sequence leaves in the register file. -/
theorem run_set_and_clear (hr : r ≠ 0) (before set after : List Inputs)
    (hbefore : ∀ i ∈ before, Injects r 0 i) (hset : ∀ i ∈ set, Injects r m i)
    (hafter : ∀ i ∈ after, Injects r 0 i) (s : State) :
    (run C (before ++ set ++ after) s).regs =
      if Odd set.length then bitflip r m s.regs else s.regs := by
  rw [run, run_append, run_append, run_cleared hr after hafter, run_injects hr set hset,
    run_cleared hr before hbefore]
  split_ifs with hodd
  · rw [(bitflip_involutive r m).iterate_odd hodd]
  · rw [(bitflip_involutive r m).iterate_even (Nat.not_odd_iff_even.mp hodd), id]

/--
**Exactly-once injection.** The mask arrives in register `r`, and nowhere else, exactly
when an odd number of edges saw it.
-/
theorem set_and_clear_iff (hr : r ≠ 0) (before set after : List Inputs)
    (hbefore : ∀ i ∈ before, Injects r 0 i) (hset : ∀ i ∈ set, Injects r m i)
    (hafter : ∀ i ∈ after, Injects r 0 i) (s : State) :
    ((run C (before ++ set ++ after) s).regs r = s.regs r ^^^ m ∧
      ∀ q, q ≠ r → (run C (before ++ set ++ after) s).regs q = s.regs q) ↔
      m = 0 ∨ Odd set.length := by
  rw [run_set_and_clear hr before set after hbefore hset hafter s]
  by_cases hodd : Odd set.length
  · rw [if_pos hodd]
    exact iff_of_true ⟨bitflip_self _, fun q hq => bitflip_of_ne hq _⟩ (.inr hodd)
  · rw [if_neg hodd, or_iff_left hodd, and_iff_left fun _ _ => rfl, xor_eq_self_iff]

/-- The lines of the host while it shows `data` to register `x1`. -/
def showing (data : BitVec 64) : Inputs :=
  { reset := false, control := 0b00001#5, addr := 1, dataOut := data }

theorem showing_injects (data : BitVec 64) : Injects 1 data (showing data) :=
  ⟨rfl, rfl, rfl⟩

/-- A bare chip: its program never runs here. -/
def noProgram : Chip := Chip.ofProgram []

/-- One edge of mask 4. -/
theorem set_and_clear_once :
    (run noProgram ([showing 0] ++ [showing 4] ++ [showing 0])
        (State.released (fun _ => 0) 0)).regs 1 = (0 : BitVec 64) ^^^ 4 :=
  ((set_and_clear_iff (C := noProgram) (by decide) [showing 0] [showing 4] [showing 0]
    (by simpa using showing_injects 0) (by simpa using showing_injects 4)
    (by simpa using showing_injects 0) (State.released (fun _ => 0) 0)).mpr
      (.inr (by decide))).1

/-- Two edges of mask 1 inject nothing. -/
theorem set_and_clear_twice :
    ¬ ∀ (C : Chip) (r : BitVec 5) (m : BitVec 64) (before set after : List Inputs) (s : State),
      r ≠ 0 → set ≠ [] → (∀ i ∈ before, Injects r 0 i) → (∀ i ∈ set, Injects r m i) →
        (∀ i ∈ after, Injects r 0 i) →
          (run C (before ++ set ++ after) s).regs r = s.regs r ^^^ m ∧
            ∀ q, q ≠ r → (run C (before ++ set ++ after) s).regs q = s.regs q := by
  intro h
  have hm := (h noProgram 1 1 [showing 0] [showing 1, showing 1] [showing 0]
    (State.released (fun _ => 0) 0) (by decide) (List.cons_ne_nil _ _)
    (by simpa using showing_injects 0) (by simpa using showing_injects 1)
    (by simpa using showing_injects 0)).1
  revert hm
  decide +kernel

end Core

end PassiFlo
