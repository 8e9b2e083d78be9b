import Mathlib

/-!
# Loops

A loop of an imperative program, as a function: the condition and the body, run on the
loop's variables with a bound on the rounds. A run ends with the variables, or in an
access outside an array, or at the bound; the three are kept apart, so that a program
that never returns is not taken for one that returns anything one likes.

The rules are the usual ones. An invariant is kept by the rounds that are made; an
invariant and a variant together give that the loop ends.

Nothing here mentions a particular program.
-/

namespace Loop

variable {σ τ : Type}

/-- How a piece of code ends. -/
inductive Outcome (σ : Type)
  /-- Normally, with this state. -/
  | done (s : σ)
  /-- In an access outside an array. -/
  | fault
  /-- Not within the bound. -/
  | timeout
  deriving DecidableEq

namespace Outcome

/-- One piece of code after another. -/
def andThen : Outcome σ → (σ → Outcome τ) → Outcome τ
  | done s, f => f s
  | fault, _ => fault
  | timeout, _ => timeout

/-- An access that may fault. -/
def ofOption : Option σ → Outcome σ
  | some s => done s
  | none => fault

instance : Monad Outcome where
  pure := done
  bind := andThen

instance : MonadLift Option Outcome where
  monadLift := ofOption

@[simp] theorem pure_eq (s : σ) : (pure s : Outcome σ) = done s := rfl

@[simp] theorem done_bind (s : σ) (f : σ → Outcome τ) : done s >>= f = f s := rfl

@[simp] theorem fault_bind (f : σ → Outcome τ) : (fault : Outcome σ) >>= f = fault := rfl

@[simp] theorem timeout_bind (f : σ → Outcome τ) : (timeout : Outcome σ) >>= f = timeout := rfl

@[simp] theorem lift_some (s : σ) : (liftM (some s) : Outcome σ) = done s := rfl

@[simp] theorem lift_none : (liftM (none : Option σ) : Outcome σ) = fault := rfl

theorem ofOption_eq_done_iff {o : Option σ} {s : σ} : ofOption o = done s ↔ o = some s := by
  cases o <;> simp [ofOption]

/-- What has run has run to the end in both parts. -/
theorem bind_eq_done_iff {o : Outcome σ} {f : σ → Outcome τ} {t : τ} :
    o >>= f = done t ↔ ∃ s, o = done s ∧ f s = done t := by
  cases o <;> simp

end Outcome

open Outcome

/-- `while (cond) body`, for at most the given number of rounds. -/
def whileLoop (cond : σ → Bool) (body : σ → Outcome σ) : ℕ → σ → Outcome σ
  | 0, s => if cond s then timeout else done s
  | fuel + 1, s => if cond s then body s >>= whileLoop cond body fuel else done s

section Rules

variable {cond : σ → Bool} {body : σ → Outcome σ} {s t : σ}

theorem whileLoop_exit (h : cond s = false) (fuel : ℕ) : whileLoop cond body fuel s = done s := by
  cases fuel <;> exact if_neg (by rw [h]; exact Bool.false_ne_true)

theorem whileLoop_round (h : cond s = true) (hbody : body s = done t) (fuel : ℕ) :
    whileLoop cond body (fuel + 1) s = whileLoop cond body fuel t := by
  rw [whileLoop, if_pos h, hbody, done_bind]

/-- More fuel does not change what a loop that ends ends in. -/
theorem whileLoop_mono {fuel fuel' : ℕ} (hle : fuel ≤ fuel') :
    ∀ s, whileLoop cond body fuel s = done t → whileLoop cond body fuel' s = done t := by
  induction fuel generalizing fuel' with
  | zero =>
      intro s hrun
      cases hc : cond s with
      | false => rwa [whileLoop_exit hc] at hrun ⊢
      | true =>
          rw [whileLoop, if_pos hc] at hrun
          exact absurd hrun (by simp)
  | succ fuel ih =>
      intro s hrun
      obtain ⟨more, rfl⟩ : ∃ more, fuel' = more + 1 := ⟨fuel' - 1, by omega⟩
      cases hc : cond s with
      | false => rwa [whileLoop_exit hc] at hrun ⊢
      | true =>
          rw [whileLoop, if_pos hc] at hrun ⊢
          obtain ⟨u, hbody, hrest⟩ := bind_eq_done_iff.mp hrun
          rw [hbody, done_bind]
          exact ih (by omega) u hrest

/--
**Total correctness.** Rounds that keep the invariant and lower the variant end the loop,
in an invariant state where the condition is off.
-/
theorem whileLoop_total (cond : σ → Bool) (body : σ → Outcome σ) {I : σ → Prop} {v : σ → ℕ}
    (hround : ∀ s, I s → cond s = true → ∃ t, body s = done t ∧ I t ∧ v t < v s) :
    ∀ (fuel : ℕ) (s : σ), I s → v s ≤ fuel →
      ∃ t, whileLoop cond body fuel s = done t ∧ I t ∧ cond t = false := by
  intro fuel
  induction fuel with
  | zero =>
      intro s hs hv
      cases hc : cond s with
      | false => exact ⟨s, whileLoop_exit hc 0, hs, hc⟩
      | true =>
          obtain ⟨t, -, -, hlt⟩ := hround s hs hc
          omega
  | succ fuel ih =>
      intro s hs hv
      cases hc : cond s with
      | false => exact ⟨s, whileLoop_exit hc _, hs, hc⟩
      | true =>
          obtain ⟨t, hbody, ht, hlt⟩ := hround s hs hc
          rw [whileLoop_round hc hbody]
          exact ih t ht (by omega)

/--
**Input and output.** A relation that holds where the loop is left, and that a round puts
in front of, holds between the states before and after the loop.
-/
theorem whileLoop_relates {I : σ → Prop} {R : σ → σ → Prop}
    (hexit : ∀ s, I s → cond s = false → R s s)
    (hround : ∀ s t, I s → cond s = true → body s = done t → I t ∧ ∀ u, R t u → R s u) :
    ∀ (fuel : ℕ) (s : σ), I s → whileLoop cond body fuel s = done t → R s t := by
  intro fuel
  induction fuel with
  | zero =>
      intro s hs hrun
      cases hc : cond s with
      | false =>
          rw [whileLoop_exit hc] at hrun
          obtain rfl := Outcome.done.inj hrun
          exact hexit s hs hc
      | true =>
          rw [whileLoop, if_pos hc] at hrun
          exact absurd hrun (by simp)
  | succ fuel ih =>
      intro s hs hrun
      cases hc : cond s with
      | false =>
          rw [whileLoop_exit hc] at hrun
          obtain rfl := Outcome.done.inj hrun
          exact hexit s hs hc
      | true =>
          rw [whileLoop, if_pos hc] at hrun
          obtain ⟨u, hbody, hrest⟩ := bind_eq_done_iff.mp hrun
          obtain ⟨hu, hback⟩ := hround s u hs hc hbody
          exact hback t (ih u hu hrest)

/-- **Partial correctness.** A loop that ends does so in an invariant state, the condition off. -/
theorem whileLoop_invariant {I : σ → Prop}
    (hround : ∀ s t, I s → cond s = true → body s = done t → I t) (fuel : ℕ) (s : σ) (hs : I s)
    (hrun : whileLoop cond body fuel s = done t) : I t ∧ cond t = false :=
  whileLoop_relates (R := fun _ t => I t ∧ cond t = false) (fun _ hs hc => ⟨hs, hc⟩)
    (fun s t hs hc hbody => ⟨hround s t hs hc hbody, fun _ h => h⟩) fuel s hs hrun

/-- **Safety.** Rounds that keep the invariant do not fault, nor does the loop. -/
theorem whileLoop_safe {I : σ → Prop}
    (hround : ∀ s, I s → cond s = true → ∃ t, body s = done t ∧ I t) :
    ∀ (fuel : ℕ) (s : σ), I s →
      whileLoop cond body fuel s = timeout ∨
        ∃ t, whileLoop cond body fuel s = done t ∧ I t ∧ cond t = false := by
  intro fuel
  induction fuel with
  | zero =>
      intro s hs
      cases hc : cond s with
      | false => exact .inr ⟨s, whileLoop_exit hc 0, hs, hc⟩
      | true => exact .inl (if_pos hc)
  | succ fuel ih =>
      intro s hs
      cases hc : cond s with
      | false => exact .inr ⟨s, whileLoop_exit hc _, hs, hc⟩
      | true =>
          obtain ⟨t, hbody, ht⟩ := hround s hs hc
          rw [whileLoop_round hc hbody]
          exact ih t ht

end Rules

end Loop
