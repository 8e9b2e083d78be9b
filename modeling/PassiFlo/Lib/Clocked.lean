import Mathlib

/-!
# Clocked machines

A synchronous design is a function from one cycle's inputs and the present state to
the next state. This file has what every argument about such a machine needs once:
runs over a list of inputs, conditions that hold *along* a run, the invariant rule,
and the two simulation rules (against an abstract machine that only sees what each
cycle does to it, and against a second machine fed the same inputs).

Nothing here mentions a particular machine.
-/

namespace Clocked

variable {σ τ ι β : Type*}

/-- The state after the given cycles. -/
def run (step : ι → σ → σ) : List ι → σ → σ
  | [], s => s
  | i :: is, s => run step is (step i s)

@[simp] theorem run_nil (step : ι → σ → σ) (s : σ) : run step [] s = s := rfl

@[simp] theorem run_cons (step : ι → σ → σ) (i : ι) (is : List ι) (s : σ) :
    run step (i :: is) s = run step is (step i s) := rfl

@[simp] theorem run_append (step : ι → σ → σ) (is js : List ι) (s : σ) :
    run step (is ++ js) s = run step js (run step is s) := by
  induction is generalizing s with
  | nil => rfl
  | cons i is ih => exact ih (step i s)

/-- A state the inputs do not move stays. -/
theorem run_fixed {step : ι → σ → σ} {i : ι} {s : σ} (h : step i s = s) (k : ℕ) :
    run step (List.replicate k i) s = s := by
  induction k with
  | zero => rfl
  | succ k ih => rw [List.replicate_succ, run_cons, h, ih]

/-- Seen through `f`, cycles that all do the same thing do it as often as there are cycles. -/
theorem run_iterate {step : ι → σ → σ} {P : ι → Prop} {f : σ → τ} {g : τ → τ}
    (h : ∀ i s, P i → f (step i s) = g (f s)) (is : List ι) (hP : ∀ i ∈ is, P i) (s : σ) :
    f (run step is s) = g^[is.length] (f s) := by
  induction is generalizing s with
  | nil => rfl
  | cons i is ih =>
      rw [run_cons, ih fun j hj => hP j (List.mem_cons_of_mem i hj),
        h i s (hP i (List.mem_cons_self ..)), List.length_cons, Function.iterate_succ_apply]

/-- `P` holds of the inputs and the state of every cycle of the run. -/
def Along (step : ι → σ → σ) (P : ι → σ → Prop) : List ι → σ → Prop
  | [], _ => True
  | i :: is, s => P i s ∧ Along step P is (step i s)

theorem along_mono {step : ι → σ → σ} {P Q : ι → σ → Prop} (h : ∀ i s, P i s → Q i s) :
    ∀ (is : List ι) (s : σ), Along step P is s → Along step Q is s
  | [], _, _ => trivial
  | i :: is, s, ⟨hi, hs⟩ => ⟨h i s hi, along_mono h is (step i s) hs⟩

theorem along_of_forall {step : ι → σ → σ} {P : ι → Prop} :
    ∀ (is : List ι) (s : σ), (∀ i ∈ is, P i) → Along step (fun i _ => P i) is s
  | [], _, _ => trivial
  | i :: is, s, h =>
      ⟨h i (List.mem_cons_self ..), along_of_forall is (step i s)
        fun j hj => h j (List.mem_cons_of_mem i hj)⟩

theorem along_and {step : ι → σ → σ} {P Q : ι → σ → Prop} :
    ∀ (is : List ι) (s : σ), Along step P is s → Along step Q is s →
      Along step (fun i s => P i s ∧ Q i s) is s
  | [], _, _, _ => trivial
  | i :: is, s, hp, hq => ⟨⟨hp.1, hq.1⟩, along_and is (step i s) hp.2 hq.2⟩

theorem along_append {step : ι → σ → σ} {P : ι → σ → Prop} (is js : List ι) (s : σ) :
    Along step P (is ++ js) s ↔ Along step P is s ∧ Along step P js (run step is s) := by
  induction is generalizing s with
  | nil => exact (and_iff_right trivial).symm
  | cons i is ih => exact (and_congr_right fun _ => ih (step i s)).trans and_assoc.symm

/-- Along a run is at each of its cycles. -/
theorem along_iff_getElem? {step : ι → σ → σ} {P : ι → σ → Prop} (is : List ι) (s : σ) :
    Along step P is s ↔ ∀ k i, is[k]? = some i → P i (run step (is.take k) s) := by
  induction is generalizing s with
  | nil => exact iff_of_true trivial fun k i h => absurd h (by simp)
  | cons j is ih =>
      constructor
      · intro h k i hk
        cases k with
        | zero =>
            obtain rfl := Option.some.inj hk
            exact h.1
        | succ k => exact (ih (step j s)).mp h.2 k i hk
      · exact fun h => ⟨h 0 j rfl, (ih (step j s)).mpr fun k i hk => h (k + 1) i hk⟩

/-- **The invariant rule.** What every admissible cycle preserves, an admissible run preserves. -/
theorem run_preserves {step : ι → σ → σ} {P : ι → σ → Prop} {I : σ → Prop}
    (h : ∀ i s, P i s → I s → I (step i s)) :
    ∀ (is : List ι) (s : σ), Along step P is s → I s → I (run step is s)
  | [], _, _, hs => hs
  | i :: is, s, ha, hs => run_preserves h is (step i s) ha.2 (h i s ha.1 hs)

/-- What every admissible cycle shows of an invariant state holds along the whole run. -/
theorem along_preserves {step : ι → σ → σ} {P Q : ι → σ → Prop} {I : σ → Prop}
    (h : ∀ i s, P i s → I s → Q i s ∧ I (step i s)) :
    ∀ (is : List ι) (s : σ), Along step P is s → I s → Along step Q is s ∧ I (run step is s)
  | [], _, _, hs => ⟨trivial, hs⟩
  | i :: is, s, ha, hs =>
      have hi := h i s ha.1 hs
      have hrest := along_preserves h is (step i s) ha.2 hi.2
      ⟨⟨hi.1, hrest.1⟩, hrest.2⟩

/-- Under an invariant, what is equivalent in every cycle is equivalent along the run. -/
theorem along_congr {step : ι → σ → σ} {P Q R : ι → σ → Prop} {I : σ → Prop}
    (h : ∀ i s, P i s → I s → (Q i s ↔ R i s) ∧ I (step i s)) :
    ∀ (is : List ι) (s : σ), Along step P is s → I s → (Along step Q is s ↔ Along step R is s)
  | [], _, _, _ => Iff.rfl
  | i :: is, s, ha, hs =>
      have hi := h i s ha.1 hs
      and_congr hi.1 (along_congr h is (step i s) ha.2 hi.2)

/-- A run seen through a projection that the steps respect. -/
theorem along_map {step : ι → σ → σ} {step' : ι → τ → τ} {f : σ → τ} {P : ι → τ → Prop}
    (h : ∀ i s, f (step i s) = step' i (f s)) :
    ∀ (is : List ι) (s : σ), Along step (fun i s => P i (f s)) is s ↔ Along step' P is (f s)
  | [], _ => Iff.rfl
  | i :: is, s => by
      change _ ∧ Along step (fun i s => P i (f s)) is (step i s) ↔ _ ∧ Along step' P is _
      rw [along_map h is (step i s), h i s]

/-- A property of the prefixes of a run, one cycle at a time. -/
theorem forall_prefix_cons {P : List ι → Prop} {i : ι} {is : List ι} :
    (∀ p, p <+: i :: is → P p) ↔ P [] ∧ ∀ p, p <+: is → P (i :: p) := by
  simp only [List.prefix_cons_iff]
  grind

/--
**The exact invariant rule.** If a cycle keeps `I` exactly when it is admissible, every
state of a run has `I` exactly when the run is admissible.
-/
theorem forall_prefix_iff_along {step : ι → σ → σ} {P : ι → σ → Prop} {I : σ → Prop}
    (h : ∀ i s, I s → (I (step i s) ↔ P i s)) (is : List ι) (s : σ) (hs : I s) :
    (∀ p, p <+: is → I (run step p s)) ↔ Along step P is s := by
  induction is generalizing s with
  | nil =>
      refine iff_of_true (fun p hp => ?_) trivial
      rw [List.prefix_nil.mp hp]
      exact hs
  | cons i is ih =>
      rw [forall_prefix_cons, and_iff_right (show I (run step [] s) from hs)]
      change (∀ p, p <+: is → I (run step p (step i s))) ↔ P i s ∧ Along step P is (step i s)
      constructor
      · intro hall
        have hnext : I (step i s) := hall [] List.nil_prefix
        exact ⟨(h i s hs).mp hnext, (ih (step i s) hnext).mp hall⟩
      · intro halong
        obtain ⟨hp, hrest⟩ := halong
        exact (ih (step i s) ((h i s hs).mpr hp)).mpr hrest

/-- What the cycles of a run show to an observer, in order. -/
def trace (step : ι → σ → σ) (obs : ι → σ → β) : List ι → σ → List β
  | [], _ => []
  | i :: is, s => obs i s :: trace step obs is (step i s)

@[simp] theorem length_trace (step : ι → σ → σ) (obs : ι → σ → β) (is : List ι) (s : σ) :
    (trace step obs is s).length = is.length := by
  induction is generalizing s with
  | nil => rfl
  | cons i is ih => rw [trace, List.length_cons, ih, List.length_cons]

/-- What a cycle shows depends on the cycles before it. -/
theorem getElem?_trace (step : ι → σ → σ) (obs : ι → σ → β) (is : List ι) (s : σ) (k : ℕ) :
    (trace step obs is s)[k]? = is[k]?.map fun i => obs i (run step (is.take k) s) := by
  induction is generalizing s k with
  | nil => rfl
  | cons i is ih =>
      cases k with
      | zero => rfl
      | succ k => exact ih (step i s) k

/--
**Refinement.** If each admissible cycle acts on the abstract state exactly as the
operation it shows, a run acts as its trace of operations.
-/
theorem run_refines {step : ι → σ → σ} {P : ι → σ → Prop} {f : σ → τ} {obs : ι → σ → β}
    {act : τ → β → τ} (h : ∀ i s, P i s → f (step i s) = act (f s) (obs i s)) :
    ∀ (is : List ι) (s : σ), Along step P is s →
      f (run step is s) = (trace step obs is s).foldl act (f s)
  | [], _, _ => rfl
  | i :: is, s, ha => by
      rw [run_cons, run_refines h is (step i s) ha.2, h i s ha.1]
      rfl

/-- **Simulation.** Two machines fed the same inputs stay related. -/
theorem run_simulates {step : ι → σ → σ} {step' : ι → τ → τ} {P : ι → σ → Prop} {R : σ → τ → Prop}
    (h : ∀ i s t, P i s → R s t → R (step i s) (step' i t)) :
    ∀ (is : List ι) (s : σ) (t : τ), Along step P is s → R s t →
      R (run step is s) (run step' is t)
  | [], _, _, _, hr => hr
  | i :: is, s, t, ha, hr => run_simulates h is (step i s) (step' i t) ha.2 (h i s t ha.1 hr)

/--
**Exact lockstep.** A second machine makes the move that each cycle of the first shows. If
an admissible cycle keeps the two related exactly when it has `Q`, all the states of an
admissible run are related exactly when its cycles have `Q`.
-/
theorem lockstep_iff {step : ι → σ → σ} {obs : ι → σ → β} {act : τ → β → τ} {P Q : ι → σ → Prop}
    {R : σ → τ → Prop}
    (h : ∀ i s t, P i s → R s t → (R (step i s) (act t (obs i s)) ↔ Q i s)) (is : List ι) (s : σ)
    (t : τ) (hP : Along step P is s) (hR : R s t) :
    (∀ p, p <+: is → R (run step p s) ((trace step obs p s).foldl act t)) ↔
      Along step Q is s := by
  induction is generalizing s t with
  | nil =>
      refine iff_of_true (fun p hp => ?_) trivial
      rw [List.prefix_nil.mp hp]
      exact hR
  | cons i is ih =>
      obtain ⟨hi, hrest⟩ := hP
      rw [forall_prefix_cons]
      refine (and_iff_right (show R (run step [] s) t from hR)).trans ?_
      constructor
      · intro hall
        have hnext : R (step i s) (act t (obs i s)) := hall [] List.nil_prefix
        exact ⟨(h i s t hi hR).mp hnext, (ih (step i s) _ hrest hnext).mp hall⟩
      · intro halong
        obtain ⟨hq, hqs⟩ := halong
        exact (ih (step i s) _ hrest ((h i s t hi hR).mpr hq)).mpr hqs

/-- A machine that takes no notice of its inputs. -/
theorem run_const (f : σ → σ) (is : List ι) (s : σ) : run (fun _ => f) is s = f^[is.length] s := by
  induction is generalizing s with
  | nil => rfl
  | cons i is ih => rw [run_cons, ih, List.length_cons, Function.iterate_succ_apply]

end Clocked
