import PassiFlo.Soft.Rand
import PassiFlo.Lib.Xorshift
import PassiFlo.Lib.Period

/-!
# The generator never gets stuck

Each of the three steps of `rand` can be taken back, so `rand` permutes its states. The
state 0 stays 0, and nothing else comes there. All other states are on one cycle.
-/

namespace PassiFlo

namespace Soft

open Xorshift

/-- The steps of `rand`. -/
theorem rand_eq_steps : rand = (fun x : BitVec 64 => x ^^^ x <<< 17) ∘
    (fun x : BitVec 64 => x ^^^ x >>> 7) ∘ fun x : BitVec 64 => x ^^^ x <<< 13 := rfl

theorem rand_injective : Function.Injective rand := by
  have hfirst : Function.Injective fun x : BitVec 64 => x ^^^ x <<< 13 :=
    xor_shiftLeft_injective (by decide)
  have hsecond : Function.Injective fun x : BitVec 64 => x ^^^ x >>> 7 :=
    xor_ushiftRight_injective (by decide)
  have hthird : Function.Injective fun x : BitVec 64 => x ^^^ x <<< 17 :=
    xor_shiftLeft_injective (by decide)
  rw [rand_eq_steps]
  exact hthird.comp (hsecond.comp hfirst)

theorem rand_zero : rand 0 = 0 := by decide

/-- One call. -/
theorem rand_ne_zero {state : BitVec 64} (h : state ≠ 0) : rand state ≠ 0 := by
  intro hzero
  exact h (rand_injective (hzero.trans rand_zero.symm))

/-- All calls. -/
theorem randCalls_ne_zero (n : ℕ) {state : BitVec 64} (h : state ≠ 0) :
    (randCalls n state).2 ≠ 0 ∧ ∀ x ∈ (randCalls n state).1, x ≠ 0 := by
  induction n generalizing state with
  | zero => exact ⟨h, fun x hx => absurd hx List.not_mem_nil⟩
  | succ n ih =>
      have hnext := rand_ne_zero h
      obtain ⟨hstate, hvalues⟩ := ih hnext
      refine ⟨hstate, ?_⟩
      intro x hx
      rcases List.mem_cons.mp hx with rfl | hx
      · exact hnext
      · exact hvalues x hx

/-- The states of `n` calls are the iterates of `rand`, the last one left as the state. -/
theorem randCalls_state (n : ℕ) (state : BitVec 64) : (randCalls n state).2 = rand^[n] state := by
  induction n generalizing state with
  | zero => rfl
  | succ n ih => exact ih (rand state)

/--
**The generator never degenerates.** `rand` permutes the states and leaves 0 where it is,
so that from a seed other than 0 neither the state nor a value returned is ever 0.
-/
theorem rand_permutes :
    Function.Injective rand ∧ Function.Bijective rand ∧ rand 0 = 0 ∧
      ∀ seed : BitVec 64, seed ≠ 0 → ∀ calls : ℕ,
        (randCalls calls (randInit seed)).2 ≠ 0 ∧
          ∀ x ∈ (randCalls calls (randInit seed)).1, x ≠ 0 := by
  refine ⟨rand_injective, Finite.injective_iff_bijective.mp rand_injective, rand_zero, ?_⟩
  intro seed hseed calls
  exact randCalls_ne_zero calls hseed

/-- Ten calls from the seed of `dtn.c`. -/
theorem rand_seeded :
    (randCalls 10 (randInit 0xaddc0defe3d5ee3d)).2 ≠ 0 ∧
      ∀ x ∈ (randCalls 10 (randInit 0xaddc0defe3d5ee3d)).1, x ≠ 0 :=
  rand_permutes.2.2.2 0xaddc0defe3d5ee3d (by decide) 10

/-! ## The period -/

theorem rand_xor (x y : BitVec 64) : rand (x ^^^ y) = rand x ^^^ rand y := by
  have hleft : ∀ (k : ℕ) (x y : BitVec 64),
      (x ^^^ y) ^^^ (x ^^^ y) <<< k = (x ^^^ x <<< k) ^^^ (y ^^^ y <<< k) := fun k =>
    xor_map_xor (f := fun x => x <<< k) fun x y => BitVec.shiftLeft_xor_distrib x y k
  have hright : ∀ (k : ℕ) (x y : BitVec 64),
      (x ^^^ y) ^^^ (x ^^^ y) >>> k = (x ^^^ x >>> k) ^^^ (y ^^^ y >>> k) := fun k =>
    xor_map_xor (f := fun x => x >>> k) fun x y => BitVec.ushiftRight_xor_distrib x y k
  simp only [rand_eq_steps, Function.comp_apply, hleft, hright]

/-- The polynomial of `rand`. -/
def feedback : ℕ := 0x1013ed4a358913201

theorem feedback_vanishes : Period.applied rand 1 65 feedback = 0 := by decide +kernel

/-- The prime factors of the number of states other than 0. -/
def periodFactors : List ℕ := [3, 5, 17, 257, 641, 65537, 6700417]

theorem periodFactors_prod : periodFactors.prod = 2 ^ 64 - 1 := by decide +kernel

theorem periodFactors_prime : ∀ q ∈ periodFactors, q.Prime := by
  simp only [periodFactors, List.forall_mem_cons]
  norm_num

/-- From the state 1, as far as one likes. -/
theorem iterate_rand_one {n : ℕ} (hn : n < 2 ^ 64) :
    rand^[n] 1 = Period.applied rand 1 64 (Period.power 64 feedback 64 n) :=
  Period.iterate_eq rand_xor (by decide) feedback_vanishes (by decide) hn

theorem minimalPeriod_rand_one : Function.minimalPeriod rand 1 = 2 ^ 64 - 1 := by
  rw [← periodFactors_prod]
  refine Period.minimalPeriod_eq periodFactors_prime ?_ ?_
  · rw [iterate_rand_one (by rw [periodFactors_prod]; decide)]
    decide +kernel
  · have hearly : ∀ q ∈ periodFactors, Period.applied rand 1 64
        (Period.power 64 feedback 64 (periodFactors.prod / q)) ≠ 1 := by decide +kernel
    intro q hq
    rw [iterate_rand_one (lt_of_le_of_lt (Nat.div_le_self _ _)
      (by rw [periodFactors_prod]; decide))]
    exact hearly q hq

theorem iterate_rand_ne_zero {state : BitVec 64} (h : state ≠ 0) (k : ℕ) :
    rand^[k] state ≠ 0 := by
  rw [← randCalls_state]
  exact (randCalls_ne_zero k h).1

/-- A state with the full period leads to every other. -/
theorem exists_iterate_of_period {state x : BitVec 64} (h : state ≠ 0)
    (hperiod : Function.minimalPeriod rand state = 2 ^ 64 - 1) (hx : x ≠ 0) :
    ∃ k, rand^[k] state = x := by
  refine Period.exists_iterate_eq (S := {x | x ≠ 0}) (Set.finite_coe_iff.mp inferInstance) ?_
    (iterate_rand_ne_zero h) hx
  rw [hperiod]
  exact Period.ncard_ne_zero 64

theorem minimalPeriod_rand {state : BitVec 64} (h : state ≠ 0) :
    Function.minimalPeriod rand state = 2 ^ 64 - 1 := by
  obtain ⟨k, rfl⟩ := exists_iterate_of_period (by decide) minimalPeriod_rand_one h
  have hperiodic : (1 : BitVec 64) ∈ Function.periodicPts rand := by
    rw [← Function.minimalPeriod_pos_iff_mem_periodicPts, minimalPeriod_rand_one]
    decide
  rw [Function.minimalPeriod_apply_iterate hperiodic, minimalPeriod_rand_one]

theorem exists_iterate_rand {state x : BitVec 64} (h : state ≠ 0) (hx : x ≠ 0) :
    ∃ k, rand^[k] state = x :=
  exists_iterate_of_period h (minimalPeriod_rand h) hx

theorem randCalls_eq (n : ℕ) (state : BitVec 64) :
    (randCalls n state).1 = (List.range n).map fun k => rand^[k + 1] state := by
  induction n generalizing state with
  | zero => rfl
  | succ n ih =>
      rw [List.range_succ_eq_map, List.map_cons, List.map_map]
      exact congrArg (rand state :: ·) (ih (rand state))

/-- A period of calls returns each state of the cycle once. -/
theorem randCalls_period {state : BitVec 64} {n : ℕ}
    (hn : Function.minimalPeriod rand state = n) (hpos : 0 < n) :
    (randCalls n state).2 = state ∧ (randCalls n state).1.Nodup ∧
      ∀ k, rand^[k] state ∈ (randCalls n state).1 := by
  have hback : rand^[n] state = state := hn ▸ Function.iterate_minimalPeriod
  refine ⟨(randCalls_state n state).trans hback, ?_, ?_⟩
  · rw [randCalls_eq]
    refine List.Nodup.map_on ?_ List.nodup_range
    intro j hj k hk h
    rw [Function.iterate_succ_apply', Function.iterate_succ_apply'] at h
    rw [List.mem_range, ← hn] at hj hk
    exact (Function.iterate_eq_iterate_iff_of_lt_minimalPeriod hj hk).mp (rand_injective h)
  · intro k
    rw [randCalls_eq, List.mem_map]
    refine ⟨(k + (n - 1)) % n, List.mem_range.mpr (Nat.mod_lt _ hpos), ?_⟩
    have hmod : rand^[(k + (n - 1)) % n] state = rand^[k + (n - 1)] state := by
      rw [← hn]
      exact Function.iterate_mod_minimalPeriod_eq
    rw [Function.iterate_succ_apply', hmod, ← Function.iterate_succ_apply' rand,
      show (k + (n - 1)).succ = k + n by omega, Function.iterate_add_apply, hback]

/--
**The period of the generator.** From any seed other than 0, `2^64 - 1` calls return every
word but 0 exactly once and leave the seed as the state.
-/
theorem rand_period {seed : BitVec 64} (hseed : seed ≠ 0) :
    (randCalls (2 ^ 64 - 1) (randInit seed)).2 = seed ∧
      ∀ x : BitVec 64, x ≠ 0 → (randCalls (2 ^ 64 - 1) (randInit seed)).1.count x = 1 := by
  obtain ⟨hback, honce, hall⟩ := randCalls_period (minimalPeriod_rand hseed) (by decide)
  refine ⟨hback, ?_⟩
  intro x hx
  obtain ⟨k, rfl⟩ := exists_iterate_rand hseed hx
  exact List.count_eq_one_of_mem honce (hall k)

/-- The seed of `dtn.c`. -/
theorem rand_period_seeded :
    (randCalls (2 ^ 64 - 1) (randInit 0xaddc0defe3d5ee3d)).1.count 1 = 1 :=
  (rand_period (show (0xaddc0defe3d5ee3d : BitVec 64) ≠ 0 by decide)).2 1 (by decide)

end Soft

end PassiFlo
