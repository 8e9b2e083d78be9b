import PassiFlo.Lib.Loop

/-!
# Machines behind ports

A processor drives a clocked machine through output registers, and looks at it through
input ports. Between two accesses the machine makes at least one step under the pins as
they are; how many more is up to the clock, the bus and the compiler, so it is a
parameter, and what is proved for every such parameter holds at any speed.

Nothing here mentions a particular machine.
-/

namespace Ports

open Loop Loop.Outcome

variable {σ π β τ : Type}

/-- A machine, the registers on its pins, and how many accesses there were. -/
structure Host (σ π : Type) where
  machine : σ
  pins : π
  accesses : ℕ

variable (step : π → σ → σ) (wait : ℕ → ℕ)

/-- A write: the registers change with the clock edge of the access. -/
def write (f : π → π) (h : Host σ π) : Host σ π where
  machine := (step h.pins)^[wait h.accesses + 1] h.machine
  pins := f h.pins
  accesses := h.accesses + 1

/-- A read: the port is sampled before the clock edge of the access. -/
def read (sample : π → σ → β) (h : Host σ π) : β × Host σ π :=
  (sample h.pins ((step h.pins)^[wait h.accesses] h.machine), write step wait id h)

/-- The sample is not what is waited for. -/
def unseen (ok : β → Bool) (p : β × Host σ π) : Bool := !ok p.1

/-- `while (!ok(read()));` -/
def poll (sample : π → σ → β) (ok : β → Bool) (fuel : ℕ) (h : Host σ π) :
    Outcome (β × Host σ π) :=
  whileLoop (unseen ok) (fun p => done (read step wait sample p.2)) fuel (read step wait sample h)

variable {step wait} {sample : π → σ → β} {ok : β → Bool} {h : Host σ π}

theorem read_machine :
    (read step wait sample h).2.machine = (step h.pins)^[wait h.accesses + 1] h.machine := rfl

/-- Seen through `view`, a write lets the machine do `g` for every edge. -/
theorem write_view {view : σ → τ} {g : τ → τ} (hview : Function.Semiconj view (step h.pins) g)
    (f : π → π) :
    view (write step wait f h).machine = g^[wait h.accesses + 1] (view h.machine) :=
  hview.iterate_right _ _

/-- What a host that has only read can know: a sample of the machine, some edges ago. -/
def Sampled (step : π → σ → σ) (sample : π → σ → β) (h : Host σ π) (p : β × Host σ π) (n : ℕ) :
    Prop :=
  p.2.pins = h.pins ∧ p.2.machine = (step h.pins)^[n + 1] h.machine ∧
    p.1 = sample h.pins ((step h.pins)^[n] h.machine)

theorem sampled_read : Sampled step sample h (read step wait sample h) (wait h.accesses) :=
  ⟨rfl, rfl, rfl⟩

/-- A further read samples a later state. -/
theorem Sampled.next {p : β × Host σ π} {n : ℕ} (hp : Sampled step sample h p n) :
    Sampled step sample h (read step wait sample p.2) (n + 1 + wait p.2.accesses) := by
  obtain ⟨hpins, hmachine, -⟩ := hp
  have hlater : ∀ k, (step h.pins)^[k] p.2.machine = (step h.pins)^[n + 1 + k] h.machine := by
    intro k
    rw [hmachine, ← Function.iterate_add_apply, Nat.add_comm]
  refine ⟨hpins, ?_, ?_⟩
  · rw [read_machine, hpins, hlater]
    congr 1
  · unfold read
    rw [hpins, hlater]

/-- A poll that has ended has seen what it waited for. -/
theorem poll_done {fuel : ℕ} {p : β × Host σ π} (hp : poll step wait sample ok fuel h = done p) :
    ∃ n, Sampled step sample h p n ∧ ok (sample h.pins ((step h.pins)^[n] h.machine)) = true := by
  obtain ⟨hn, hok⟩ := whileLoop_invariant (I := fun p => ∃ n, Sampled step sample h p n)
    (fun p q hp _ hround => by
      obtain ⟨n, hn⟩ := hp
      obtain rfl := Outcome.done.inj hround
      exact ⟨_, hn.next⟩) fuel _ ⟨_, sampled_read⟩ hp
  obtain ⟨n, hn⟩ := hn
  refine ⟨n, hn, ?_⟩
  rw [← hn.2.2]
  simpa [unseen] using hok

/-- What a poll ends in does not depend on the bound. -/
theorem poll_unique {fuel fuel' : ℕ} {p q : β × Host σ π}
    (hp : poll step wait sample ok fuel h = done p)
    (hq : poll step wait sample ok fuel' h = done q) : p = q := by
  rcases Nat.le_total fuel fuel' with hle | hle
  · exact Outcome.done.inj ((whileLoop_mono hle _ hp).symm.trans hq)
  · exact Outcome.done.inj (hp.symm.trans (whileLoop_mono hle _ hq))

/-- **Polling ends** if what is waited for comes and stays. -/
theorem poll_total {bound : ℕ}
    (hok : ∀ n, bound ≤ n → ok (sample h.pins ((step h.pins)^[n] h.machine)) = true) {fuel : ℕ}
    (hfuel : bound ≤ fuel) : ∃ p, poll step wait sample ok fuel h = done p := by
  have hexit : ∀ p n, Sampled step sample h p n → bound ≤ n → unseen ok p = false := by
    intro p n hp hn
    rw [unseen, hp.2.2, hok n hn]
    rfl
  -- every further round takes an edge at least
  have hrounds : ∀ fuel p n, Sampled step sample h p n → bound ≤ n + fuel →
      ∃ q, whileLoop (unseen ok) (fun p => done (read step wait sample p.2)) fuel p = done q := by
    intro fuel
    induction fuel with
    | zero => exact fun p n hp hn => ⟨p, whileLoop_exit (hexit p n hp hn) 0⟩
    | succ fuel ih =>
        intro p n hp hn
        cases hseen : unseen ok p with
        | false => exact ⟨p, whileLoop_exit hseen _⟩
        | true =>
            obtain ⟨q, hq⟩ := ih _ _ hp.next (by omega)
            exact ⟨q, (whileLoop_round (t := read step wait sample p.2) hseen rfl fuel).trans hq⟩
  exact hrounds fuel _ _ sampled_read (by omega)

end Ports
