import PassiFlo.Proof.SdramInit

/-!
# The banks of the SDRAM

The controller and the chip it drives, as one machine: each bank is open, closed or,
after power-up, in an unknown state. The only precharge the controller issues has
address bit 10 low, so it closes one bank of four and the refreshes find the others
unknown; and no row is ever closed again, so the second request activates an open
bank. Both are exact: nothing else goes wrong, and these do as soon as they can.
-/

namespace PassiFlo

open Clocked

namespace MemControl

/-! ## The chip -/

inductive BankState
  | unknown | opened | closed
  deriving DecidableEq

abbrev Banks := BitVec 2 → BankState

/-- The chip takes a command. -/
def Banks.apply (o : MemControlOut) (b : Banks) : Banks :=
  match o.command with
  | .act => Function.update b o.bank .opened
  | .pre => if o.dramAddr.getLsbD 10 then fun _ => .closed else Function.update b o.bank .closed
  | _ => b

/-- One clock edge of controller and chip. -/
def deviceNext (i : MemControlIn) (p : MemControl × Banks) : MemControl × Banks :=
  (next i p.1, p.2.apply (out i p.1))

/-- Reset has been released, and nothing is known about the banks. -/
def poweredUp : MemControl × Banks := (released, fun _ => .unknown)

/-- REF and MRS come when all banks are closed. -/
def RefreshSafe (i : MemControlIn) (p : MemControl × Banks) : Prop :=
  (out i p.1).command = .ref ∨ (out i p.1).command = .mrs → ∀ b, p.2 b = .closed

/-- ACT comes to a closed bank. -/
def ActivateSafe (i : MemControlIn) (p : MemControl × Banks) : Prop :=
  (out i p.1).command = .act → p.2 (out i p.1).bank = .closed

/-- Cycle `k` requests an access. -/
def Requested (is : List MemControlIn) (k : Nat) : Prop := ∃ i, is[k]? = some i ∧ i.op ≠ 0

/-- A request is followed by another, not in the very next cycle. -/
def TwoRequests (is : List MemControlIn) : Prop :=
  ∃ j k, j + 2 ≤ k ∧ Requested is j ∧ Requested is k

theorem requested_zero {i : MemControlIn} {is : List MemControlIn} :
    Requested (i :: is) 0 ↔ i.op ≠ 0 := by
  constructor
  · intro hreq
    obtain ⟨j, hj, hop⟩ := hreq
    obtain rfl := Option.some.inj hj
    exact hop
  · exact fun h => ⟨i, rfl, h⟩

theorem twoRequests_cons {i : MemControlIn} {is : List MemControlIn} :
    TwoRequests (i :: is) ↔ (i.op ≠ 0 ∧ ∃ k, 1 ≤ k ∧ Requested is k) ∨ TwoRequests is := by
  constructor
  · intro htwo
    obtain ⟨j, k, hjk, hj, hk⟩ := htwo
    obtain ⟨k, rfl⟩ : ∃ m, k = m + 1 := ⟨k - 1, by omega⟩
    cases j with
    | zero => exact .inl ⟨requested_zero.mp hj, k, by omega, hk⟩
    | succ j => exact .inr ⟨j, k, by omega, hj, hk⟩
  · intro hrequested
    rcases hrequested with ⟨hop, k, hk, hreq⟩ | ⟨j, k, hjk, hj, hk⟩
    · exact ⟨0, k + 1, by omega, requested_zero.mpr hop, hreq⟩
    · exact ⟨j + 1, k + 1, by omega, hj, hk⟩

/-! ## Initialisation -/

/-- The banks while the controller initialises. -/
def initBanks (n : Nat) : Banks :=
  if n ≤ tInit then fun _ => .unknown else Function.update (fun _ => .unknown) 0 .closed

/-- The precharge is one of bank 0 alone. -/
theorem pre_pins {s : MemControl} {op : BitVec 2} (hc : (memControlOut s op).command = .pre) :
    (memControlOut s op).dramAddr = 0 ∧ (memControlOut s op).bank = 0 := by
  cases hs : s.currState with
  | init =>
      simp only [memControlOut, hs] at hc ⊢
      split_ifs at hc ⊢ with htimer
      · exact ⟨rfl, rfl⟩
      · cases hc
  | idle | prechargeAll | autorefInit | regset =>
      simp only [memControlOut, hs] at hc
      split_ifs at hc <;> cases hc
  | activating | active | reading | writing | autoref =>
      simp only [memControlOut, hs] at hc
      cases hc

theorem apply_pre {o : MemControlOut} (hc : o.command = .pre) (haddr : o.dramAddr = 0)
    (hbank : o.bank = 0) (b : Banks) : b.apply o = Function.update b 0 .closed := by
  have h10 : (0 : BitVec 13).getLsbD 10 = false := by decide
  simp only [Banks.apply, hc, haddr, hbank, h10, Bool.false_eq_true, if_false]

theorem apply_other {o : MemControlOut} (hact : o.command ≠ .act) (hpre : o.command ≠ .pre)
    (b : Banks) : b.apply o = b := by
  unfold Banks.apply
  split
  · exact absurd ‹_› hact
  · exact absurd ‹_› hpre
  · rfl

theorem initBanks_next {n : Nat} {s : MemControl} (h : Scheduled n s) (hn : n < readyAt)
    (op : BitVec 2) : (initBanks n).apply (memControlOut s op) = initBanks (n + 1) := by
  have hc : (memControlOut s op).command = planned n := by
    rcases scheduled_command h op with ⟨-, hc⟩ | ⟨hge, -⟩
    · exact hc
    · omega
  by_cases hpre : planned n = .pre
  · obtain rfl := planned_pre hpre
    obtain ⟨haddr, hbank⟩ := pre_pins (hc.trans hpre)
    rw [apply_pre (hc.trans hpre) haddr hbank, initBanks, initBanks, if_pos (Nat.le_refl _),
      if_neg (Nat.not_succ_le_self _)]
  · have hne : n ≠ tInit := fun heq => hpre (by rw [planned, if_pos heq])
    have hact : (memControlOut s op).command ≠ .act := by rw [hc]; exact planned_ne_act n
    rw [apply_other hact (by rw [hc]; exact hpre), initBanks, initBanks]
    split_ifs <;> first | rfl | omega

/-- **The device during initialisation.** -/
theorem device_run (is : List MemControlIn) (h : is.length ≤ readyAt) :
    Scheduled is.length (run deviceNext is poweredUp).1 ∧
      (run deviceNext is poweredUp).2 = initBanks is.length := by
  induction is using List.reverseRecOn with
  | nil => exact ⟨scheduled_released, rfl⟩
  | append_singleton is i ih =>
      rw [List.length_append] at h ⊢
      obtain ⟨hs, hb⟩ := ih (Nat.le_of_succ_le h)
      rw [run_append]
      refine ⟨scheduled_next i hs, ?_⟩
      change (run deviceNext is poweredUp).2.apply _ = _
      rw [hb]
      exact initBanks_next hs h i.op

/-! ## Refreshes -/

theorem refreshSafe_iff (is : List MemControlIn) :
    Along deviceNext RefreshSafe is poweredUp ↔ is.length ≤ refAt 0 := by
  have hfirst : refAt 0 < readyAt := by decide
  rw [along_iff_getElem?]
  constructor
  · intro hsafe
    by_contra hlong
    have hlt : refAt 0 < is.length := by omega
    have htake : (is.take (refAt 0)).length = refAt 0 := by rw [List.length_take]; omega
    obtain ⟨hs, hb⟩ := device_run (is.take (refAt 0)) (by omega)
    rw [htake] at hs hb
    have href : (out is[refAt 0] (run deviceNext (is.take (refAt 0)) poweredUp).1).command =
        .ref := by
      have hplan : planned (refAt 0) = .ref := by decide
      rcases scheduled_command hs is[refAt 0].op with ⟨-, hc⟩ | ⟨hge, -⟩
      · exact hc.trans hplan
      · omega
    have hclosed := hsafe (refAt 0) _ (List.getElem?_eq_getElem hlt) (.inl href) 1
    rw [hb] at hclosed
    revert hclosed
    decide
  · intro hshort k i hk hc
    have hlt := (List.getElem?_eq_some_iff.mp hk).1
    have htake : (is.take k).length = k := by rw [List.length_take]; omega
    obtain ⟨hs, -⟩ := device_run (is.take k) (by omega)
    rw [htake] at hs
    rcases scheduled_command hs i.op with ⟨-, hplan⟩ | ⟨hge, -⟩
    · rcases hc with hc | hc
      · obtain ⟨r, -, rfl⟩ := planned_ref (hplan.symm.trans hc)
        exact absurd (refAt_lt_iff.mp (Nat.lt_of_lt_of_le hlt hshort)) (Nat.not_lt_zero r)
      · have hmrs := planned_mrs (hplan.symm.trans hc)
        have hle : refAt 0 < mrsAt := by decide
        omega
    · omega

/-! ## Activations -/

theorem scheduled_readyAt {s : MemControl} (h : Scheduled readyAt s) :
    Ready s ∧ s.currState ≠ .active := by
  have hrefs : ∀ k < 8, refAt k < readyAt := by decide
  have hwaits : ∀ k < 8, ∀ j < tRC, refAt k + 1 + j < readyAt := by decide
  have hready : readyAt = mrsAt + 1 + tMRD := rfl
  have hmrs : tInit + 1 + tRP < mrsAt := by decide
  generalize hn : readyAt = n at h
  cases h with
  | waiting => omega
  | precharging => omega
  | @refresh k hk => exact absurd hn (Nat.ne_of_gt (hrefs k hk))
  | @refreshing k j hk hj => exact absurd hn (Nat.ne_of_gt (hwaits k hk j hj))
  | modeSet => omega
  | settling => omega
  | ready _ hs hidle =>
      refine ⟨hs, ?_⟩
      rw [hidle hn.symm]
      exact fun h => nomatch h

/-- A ready controller that serves no request leaves the banks alone and is idle next. -/
theorem ready_quiet {s : MemControl} (hs : Ready s) {i : MemControlIn}
    (h : s.currState = .active ∨ i.op = 0) (b : Banks) :
    ActivateSafe i (s, b) ∧ deviceNext i (s, b) = (next i s, b) ∧
      (next i s).currState ≠ .active := by
  have hout : out i s = { nopOut 0 .idle with command := .desl } ∨
      out i s = nopOut addrA10 .idle := by
    have hready := ready_out hs i.op
    by_cases hactive : s.currState = .active
    · rw [if_pos hactive] at hready
      exact .inl hready
    · rw [if_neg hactive, if_neg (not_not_intro (h.resolve_left hactive))] at hready
      exact .inr hready
  have hact : (out i s).command ≠ .act := by
    rcases hout with hout | hout <;> rw [hout] <;> exact fun h => nomatch h
  have hpre : (out i s).command ≠ .pre := by
    rcases hout with hout | hout <;> rw [hout] <;> exact fun h => nomatch h
  refine ⟨fun hc => absurd hc hact, ?_, ?_⟩
  · rw [deviceNext, apply_other hact hpre]
  · change (out i s).nextState ≠ .active
    rcases hout with hout | hout <;> rw [hout] <;> exact fun h => nomatch h

/-- A request an idle controller finds: row 0 of bank 0 is opened, whatever the address. -/
theorem ready_request {s : MemControl} (hs : Ready s) {i : MemControlIn}
    (hidle : s.currState ≠ .active) (hop : i.op ≠ 0) :
    out i s = { nopOut addrA10 .active with command := .act, dataMask := 0b00#2 } := by
  have hready := ready_out hs i.op
  rw [if_neg hidle, if_pos hop] at hready
  exact hready

/-- A ready controller whose bank 0 is open: every further request goes wrong. -/
theorem activateSafe_opened (is : List MemControlIn) {s : MemControl} (hs : Ready s) {b : Banks}
    (hb : b 0 = .opened) :
    Along deviceNext ActivateSafe is (s, b) ↔
      ∀ k, (s.currState = .active → 1 ≤ k) → ¬ Requested is k := by
  induction is generalizing s b with
  | nil => exact iff_of_true trivial fun k _ ⟨i, hi, _⟩ => absurd hi (by simp)
  | cons i is ih =>
      by_cases hquiet : s.currState = .active ∨ i.op = 0
      · obtain ⟨hsafe, hdev, hidle⟩ := ready_quiet hs hquiet b
        change _ ∧ Along deviceNext ActivateSafe is (deviceNext i (s, b)) ↔ _
        rw [hdev, ih (ready_next i hs) hb, and_iff_right hsafe]
        constructor
        · intro h k hk hreq
          cases k with
          | zero =>
              rcases hquiet with hactive | hop
              · exact absurd (hk hactive) (Nat.not_succ_le_zero 0)
              · exact requested_zero.mp hreq hop
          | succ k => exact h k (fun hne => absurd hne hidle) hreq
        · exact fun h k _ => h (k + 1) fun _ => Nat.succ_pos k
      · obtain ⟨hidle, hop⟩ := not_or.mp hquiet
        have hout := ready_request hs hidle hop
        refine iff_of_false (fun h => ?_) fun h =>
          h 0 (fun hne => absurd hne hidle) (requested_zero.mpr hop)
        have hclosed := h.1 (congrArg MemControlOut.command hout)
        rw [hout] at hclosed
        exact absurd (hb.symm.trans hclosed) (by decide)

/-- A ready, idle controller whose bank 0 is closed: the second request goes wrong. -/
theorem activateSafe_closed (is : List MemControlIn) {s : MemControl} (hs : Ready s)
    (hidle : s.currState ≠ .active) {b : Banks} (hb : b 0 = .closed) :
    Along deviceNext ActivateSafe is (s, b) ↔ ¬ TwoRequests is := by
  induction is generalizing s b with
  | nil => exact iff_of_true trivial fun ⟨j, k, _, ⟨i, hi, _⟩, _⟩ => absurd hi (by simp)
  | cons i is ih =>
      rw [twoRequests_cons, not_or, not_and]
      change _ ∧ Along deviceNext ActivateSafe is (deviceNext i (s, b)) ↔ _
      by_cases hop : i.op = 0
      · obtain ⟨hsafe, hdev, hidle'⟩ := ready_quiet hs (.inr hop) b
        rw [hdev, ih (ready_next i hs) hidle' hb, and_iff_right hsafe,
          and_iff_right fun h => absurd hop h]
      · have hout := ready_request hs hidle hop
        have hsafe : ActivateSafe i (s, b) := by
          intro _
          rw [hout]
          exact hb
        have hopened : (b.apply (out i s)) 0 = .opened := by
          rw [hout]
          exact Function.update_self (0 : BitVec 2) BankState.opened b
        have hactive : (next i s).currState = .active := congrArg MemControlOut.nextState hout
        rw [deviceNext, activateSafe_opened is (ready_next i hs) hopened, and_iff_right hsafe]
        constructor
        · intro h
          refine ⟨fun _ ⟨k, hk, hreq⟩ => h k (fun _ => hk) hreq, ?_⟩
          intro htwo
          obtain ⟨j, k, hjk, -, hreq⟩ := htwo
          exact h k (fun _ => by omega) hreq
        · exact fun h k hk hreq => h.1 hop ⟨k, hk hactive, hreq⟩

/-- No request is served before `readyAt`. -/
theorem activateSafe_initialising (is : List MemControlIn) (h : is.length ≤ readyAt) :
    Along deviceNext ActivateSafe is poweredUp := by
  rw [along_iff_getElem?]
  intro k i hk hc
  have hlt := (List.getElem?_eq_some_iff.mp hk).1
  have htake : (is.take k).length = k := by rw [List.length_take]; omega
  obtain ⟨hs, -⟩ := device_run (is.take k) (by omega)
  rw [htake] at hs
  rcases scheduled_command hs i.op with ⟨-, hplan⟩ | ⟨hge, -⟩
  · exact absurd (hplan.symm.trans hc) (planned_ne_act k)
  · omega

theorem activateSafe_iff (is : List MemControlIn) :
    Along deviceNext ActivateSafe is poweredUp ↔ ¬ TwoRequests (is.drop readyAt) := by
  by_cases hshort : is.length ≤ readyAt
  · refine iff_of_true (activateSafe_initialising is hshort) ?_
    intro htwo
    obtain ⟨j, k, -, ⟨i, hi, -⟩, -⟩ := htwo
    rw [List.drop_eq_nil_of_le hshort] at hi
    exact absurd hi (by simp)
  · have htake : (is.take readyAt).length = readyAt := by rw [List.length_take]; omega
    obtain ⟨hs, hb⟩ := device_run (is.take readyAt) (by omega)
    rw [htake] at hs hb
    obtain ⟨hready, hidle⟩ := scheduled_readyAt hs
    have hclosed : (run deviceNext (is.take readyAt) poweredUp).2 0 = .closed := by
      rw [hb]
      decide
    have hsplit : Along deviceNext ActivateSafe (is.take readyAt ++ is.drop readyAt) poweredUp ↔
        Along deviceNext ActivateSafe (is.take readyAt) poweredUp ∧
          Along deviceNext ActivateSafe (is.drop readyAt)
            (run deviceNext (is.take readyAt) poweredUp) := along_append _ _ _
    rw [List.take_append_drop] at hsplit
    rw [hsplit, and_iff_right (activateSafe_initialising _ (by omega))]
    exact activateSafe_closed _ hready hidle hclosed

/-! ## Both together -/

def BankSafe (i : MemControlIn) (p : MemControl × Banks) : Prop :=
  RefreshSafe i p ∧ ActivateSafe i p

/-- **Bank safety.** It lasts until the first refresh, which finds three banks unknown;
apart from that, until the first request that finds its bank open. -/
theorem bankSafe_iff (is : List MemControlIn) :
    (Along deviceNext BankSafe is poweredUp ↔ is.length ≤ refAt 0) ∧
      (Along deviceNext RefreshSafe is poweredUp ↔ is.length ≤ refAt 0) ∧
      (Along deviceNext ActivateSafe is poweredUp ↔ ¬ TwoRequests (is.drop readyAt)) := by
  refine ⟨?_, refreshSafe_iff is, activateSafe_iff is⟩
  have hfirst : refAt 0 ≤ readyAt := by decide
  constructor
  · exact fun h => (refreshSafe_iff is).mp (along_mono (fun _ _ hp => hp.1) is poweredUp h)
  · intro hshort
    exact along_and is poweredUp ((refreshSafe_iff is).mpr hshort)
      (activateSafe_initialising is (Nat.le_trans hshort hfirst))

/-- Seven idle cycles: the first refresh. -/
theorem bankSafe_refuted :
    ¬ ∀ is : List MemControlIn, Along deviceNext BankSafe is poweredUp := by
  intro h
  have hsafe := (along_iff_getElem? _ _).mp (h (List.replicate 7 ⟨0, 0, 0⟩)) 6 ⟨0, 0, 0⟩ rfl
  exact absurd (hsafe.1 (by decide +kernel) 1) (by decide +kernel)

end MemControl

end PassiFlo
