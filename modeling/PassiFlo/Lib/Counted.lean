import Mathlib

/-!
# Programs of known duration

Pre- and postconditions for a machine that is a function: from every state of `P`, exactly
`n` steps come to a state of `Q`. Since the count is part of the statement, the rules also
say when things happen, which is what a program without interrupts has for a clock.

Nothing here mentions a particular machine.
-/

namespace Counted

variable {σ : Type*}

/-- In exactly `n` steps, every state of `P` comes to a state of `Q`. -/
def Leads (step : σ → σ) (n : ℕ) (P Q : σ → Prop) : Prop := ∀ s, P s → Q (step^[n] s)

variable {step : σ → σ} {m n : ℕ} {P Q R : σ → Prop}

/-- One program after the other. -/
theorem Leads.trans (h : Leads step m P Q) (h' : Leads step n Q R) : Leads step (m + n) P R := by
  intro s hs
  rw [Nat.add_comm, Function.iterate_add_apply]
  exact h' _ (h s hs)

/-- **The indexed invariant.** What is known of every step in turn is known after any number. -/
theorem leads_indexed {I : ℕ → σ → Prop} (h : ∀ k, Leads step 1 (I k) (I (k + 1))) (n : ℕ) :
    Leads step n (I 0) (I n) := by
  induction n with
  | zero => exact fun s hs => hs
  | succ n ih => exact ih.trans (h n)

/-- What one step keeps is kept. -/
theorem Leads.stays (h : Leads step 1 P P) (n : ℕ) : Leads step n P P :=
  leads_indexed (fun _ => h) n

end Counted
