import Mathlib

/-!
# The period of a generator

The state of a generator whose step respects xor is, any number of steps on, the xor of
some of its first states. Which of them is found with polynomials over two elements, kept
as numbers and taken modulo one that vanishes at the state; a power takes as many
multiplications as its exponent has binary digits, so states are known that no run could
reach. A period is then certified by the prime factors of its length.

Nothing here mentions a particular generator.
-/

namespace Period

/-! ## Certifying a period -/

section Orbits

variable {α : Type*} {f : α → α} {x : α}

/-- **A period** that no prime factor can be taken from. -/
theorem minimalPeriod_eq {factors : List ℕ} (hprime : ∀ q ∈ factors, q.Prime)
    (hperiod : f^[factors.prod] x = x)
    (hfactors : ∀ q ∈ factors, f^[factors.prod / q] x ≠ x) :
    Function.minimalPeriod f x = factors.prod := by
  have hperiodic : Function.IsPeriodicPt f factors.prod x := hperiod
  obtain ⟨c, hc⟩ := hperiodic.minimalPeriod_dvd
  by_contra hne
  have hc1 : c ≠ 1 := by
    intro h
    rw [h, Nat.mul_one] at hc
    exact hne hc.symm
  obtain ⟨q, hq, d, rfl⟩ := Nat.exists_prime_and_dvd hc1
  have hmem : q ∈ factors := by
    refine mem_list_primes_of_dvd_prod hq.prime (fun r hr => (hprime r hr).prime) ?_
    exact ⟨_, hc.trans (Nat.mul_left_comm ..)⟩
  have hdiv : factors.prod / q = Function.minimalPeriod f x * d := by
    rw [hc, Nat.mul_left_comm, Nat.mul_div_cancel_left _ hq.pos]
  have hearly : Function.IsPeriodicPt f (factors.prod / q) x := by
    rw [hdiv]
    exact (Function.isPeriodicPt_minimalPeriod f x).mul_const d
  exact hfactors q hmem hearly

/-- An orbit as large as a set it stays in is the set. -/
theorem exists_iterate_eq {S : Set α} (hS : S.Finite) (hcard : S.ncard = Function.minimalPeriod f x)
    (hmem : ∀ k, f^[k] x ∈ S) {y : α} (hy : y ∈ S) : ∃ k, f^[k] x = y := by
  have hinj : Set.InjOn (fun k => f^[k] x) (Finset.range (Function.minimalPeriod f x)) := by
    rw [Finset.coe_range]
    exact Function.iterate_injOn_Iio_minimalPeriod
  have hsub : (fun k => f^[k] x) '' (Finset.range (Function.minimalPeriod f x)) ⊆ S := by
    intro z hz
    obtain ⟨k, -, rfl⟩ := hz
    exact hmem k
  have hall := Set.eq_of_subset_of_ncard_le hsub (by
    rw [hinj.ncard_image, Set.ncard_coe_finset, Finset.card_range, hcard]) hS
  rw [← hall] at hy
  obtain ⟨k, -, hk⟩ := hy
  exact ⟨k, hk⟩

end Orbits

/-- All words but one. -/
theorem ncard_ne_zero (w : ℕ) : Set.ncard {x : BitVec w | x ≠ 0} = 2 ^ w - 1 := by
  have hfinite : Finite (BitVec w) := Finite.of_equiv _ BitVec.equivFin.toEquiv.symm
  have hcard : Nat.card (BitVec w) = 2 ^ w := by
    rw [Nat.card_congr BitVec.equivFin.toEquiv, Nat.card_fin]
  have hcompl : {x : BitVec w | x ≠ 0} = ({0} : Set (BitVec w))ᶜ := rfl
  have hsum := Set.ncard_add_ncard_compl ({0} : Set (BitVec w))
  rw [Set.ncard_singleton, hcard] at hsum
  rw [hcompl]
  omega

/-! ## Polynomials -/

section Polynomials

variable {w : ℕ} {f : BitVec w → BitVec w} {v : BitVec w}

/-- The polynomial `r` at `v`: its lowest `k` coefficients, where `x` is a step. -/
def applied (f : BitVec w → BitVec w) (v : BitVec w) : ℕ → ℕ → BitVec w
  | 0, _ => 0
  | k + 1, r => (if r % 2 = 1 then v else 0) ^^^ f (applied f v k (r / 2))

/-- `x * r` modulo `p`, a polynomial of degree `d`. -/
def timesX (d p r : ℕ) : ℕ := 2 * r ^^^ 2 * r / 2 ^ d * p

/-- `a * b` modulo `p`, for the lowest `k` coefficients of `b`. -/
def times (d p a : ℕ) : ℕ → ℕ → ℕ
  | 0, _ => 0
  | k + 1, b => b % 2 * a ^^^ timesX d p (times d p a k (b / 2))

/-- `x ^ n` modulo `p`, for the lowest `k` digits of `n`. -/
def power (d p : ℕ) : ℕ → ℕ → ℕ
  | 0, _ => 1
  | k + 1, n =>
      let square := times d p (power d p k (n / 2)) d (power d p k (n / 2))
      if n % 2 = 1 then timesX d p square else square

/-- The lowest coefficient of a sum. -/
theorem ite_xor (r s : ℕ) : (if (r ^^^ s) % 2 = 1 then v else 0) =
    (if r % 2 = 1 then v else 0) ^^^ (if s % 2 = 1 then v else 0) := by
  rcases Nat.mod_two_eq_zero_or_one r with hr | hr <;>
    rcases Nat.mod_two_eq_zero_or_one s with hs | hs <;>
    rw [Nat.xor_mod_two_eq, Nat.add_mod, hr, hs]
  · exact BitVec.xor_self.symm
  · exact BitVec.zero_xor.symm
  · exact BitVec.xor_zero.symm
  · exact BitVec.xor_self.symm

variable (hf : ∀ x y, f (x ^^^ y) = f x ^^^ f y)
include hf

theorem map_zero : f 0 = 0 := by
  have h := hf 0 0
  rwa [BitVec.xor_self, BitVec.xor_self] at h

theorem applied_zero (k : ℕ) : applied f v k 0 = 0 := by
  induction k with
  | zero => rfl
  | succ k ih =>
      rw [applied, Nat.zero_div, ih, map_zero hf, if_neg (by decide)]
      exact BitVec.xor_self

theorem applied_xor (k r s : ℕ) :
    applied f v k (r ^^^ s) = applied f v k r ^^^ applied f v k s := by
  induction k generalizing r s with
  | zero => exact BitVec.xor_self.symm
  | succ k ih =>
      rw [applied, applied, applied, Nat.xor_div_two, ih, hf, ite_xor]
      ac_rfl

omit hf in
theorem applied_double (k r : ℕ) : applied f v (k + 1) (2 * r) = f (applied f v k r) := by
  have hdiv : 2 * r / 2 = r := by omega
  rw [applied, hdiv, if_neg (by omega)]
  exact BitVec.zero_xor

/-- The coefficients above the degree are zero. -/
theorem applied_of_lt {k r : ℕ} (hr : r < 2 ^ k) : applied f v (k + 1) r = applied f v k r := by
  induction k generalizing r with
  | zero =>
      obtain rfl : r = 0 := by omega
      exact applied_zero hf 1
  | succ k ih =>
      have hhalf : r / 2 < 2 ^ k := by omega
      rw [applied, ih hhalf]
      rfl

/-- Steps and polynomials commute. -/
theorem applied_iterate (k r m : ℕ) : applied f (f^[m] v) k r = f^[m] (applied f v k r) := by
  have hstep : ∀ v, applied f (f v) k r = f (applied f v k r) := by
    induction k generalizing r with
    | zero => exact fun _ => (map_zero hf).symm
    | succ k ih =>
        intro v
        rw [applied, applied, ih, hf]
        split_ifs
        · rfl
        · rw [map_zero hf]
  induction m with
  | zero => rfl
  | succ m ih => rw [Function.iterate_succ_apply', Function.iterate_succ_apply', hstep, ih]

theorem applied_one (k : ℕ) : applied f v (k + 1) 1 = v := by
  rw [applied, if_pos rfl, show 1 / 2 = 0 from rfl, applied_zero hf, map_zero hf]
  exact BitVec.xor_zero

variable {d p : ℕ} (hp : p / 2 ^ d = 1) (hv : applied f v (d + 1) p = 0)

omit hf in
include hp in
theorem timesX_lt {r : ℕ} (hr : r < 2 ^ d) : timesX d p r < 2 ^ d := by
  have hlead : 2 * r / 2 ^ d < 2 := Nat.div_lt_of_lt_mul (by omega)
  rw [← Nat.div_eq_zero_iff_lt (Nat.two_pow_pos d), timesX, Nat.xor_div_two_pow]
  interval_cases hc : 2 * r / 2 ^ d
  · rw [Nat.zero_mul, Nat.zero_div, Nat.xor_self]
  · rw [Nat.one_mul, hp, Nat.xor_self]

include hp hv in
theorem applied_timesX {r : ℕ} (hr : r < 2 ^ d) :
    applied f v d (timesX d p r) = f (applied f v d r) := by
  have hlead : 2 * r / 2 ^ d < 2 := Nat.div_lt_of_lt_mul (by omega)
  have htop : applied f v (d + 1) (2 * r / 2 ^ d * p) = 0 := by
    interval_cases 2 * r / 2 ^ d
    · rw [Nat.zero_mul]
      exact applied_zero hf _
    · rwa [Nat.one_mul]
  rw [← applied_of_lt hf (timesX_lt hp hr), timesX, applied_xor hf, applied_double, htop]
  exact BitVec.xor_zero

omit hf in
include hp in
theorem times_lt {a : ℕ} (ha : a < 2 ^ d) (k b : ℕ) : times d p a k b < 2 ^ d := by
  induction k generalizing b with
  | zero => exact Nat.two_pow_pos d
  | succ k ih =>
      refine Nat.xor_lt_two_pow ?_ (timesX_lt hp (ih _))
      rcases Nat.mod_two_eq_zero_or_one b with h | h
      · rw [h, Nat.zero_mul]
        exact Nat.two_pow_pos d
      · rwa [h, Nat.one_mul]

include hp hv in
/-- A product is one polynomial at the other. -/
theorem applied_times {a : ℕ} (ha : a < 2 ^ d) (k b : ℕ) :
    applied f v d (times d p a k b) = applied f (applied f v d a) k b := by
  induction k generalizing b with
  | zero => exact applied_zero hf d
  | succ k ih =>
      have hlow : applied f v d (b % 2 * a) = if b % 2 = 1 then applied f v d a else 0 := by
        rcases Nat.mod_two_eq_zero_or_one b with h | h
        · rw [h, Nat.zero_mul, if_neg Nat.zero_ne_one]
          exact applied_zero hf d
        · rw [h, Nat.one_mul, if_pos rfl]
      rw [times, applied_xor hf, hlow, applied_timesX hf hp hv (times_lt hp ha k _), ih]
      rfl

omit hf in
include hp in
theorem power_lt (hd : 0 < d) (k n : ℕ) : power d p k n < 2 ^ d := by
  induction k generalizing n with
  | zero => exact Nat.one_lt_two_pow hd.ne'
  | succ k ih =>
      have hsquare := times_lt hp (ih (n / 2)) d (power d p k (n / 2))
      rw [power]
      split_ifs
      · exact timesX_lt hp hsquare
      · exact hsquare

include hp hv in
/-- **Many steps at once.** -/
theorem iterate_eq (hd : 0 < d) {k n : ℕ} (hn : n < 2 ^ k) :
    f^[n] v = applied f v d (power d p k n) := by
  induction k generalizing n with
  | zero =>
      obtain rfl : n = 0 := by omega
      obtain ⟨e, rfl⟩ := Nat.exists_eq_add_of_lt hd
      exact (applied_one hf _).symm
  | succ k ih =>
      have hhalf := ih (n := n / 2) (by omega)
      have hlt := power_lt hp hd k (n / 2)
      have hsquare : f^[n / 2 + n / 2] v =
          applied f v d (times d p (power d p k (n / 2)) d (power d p k (n / 2))) := by
        rw [applied_times hf hp hv hlt, ← hhalf, applied_iterate hf, ← hhalf,
          Function.iterate_add_apply]
      rw [power]
      split_ifs with hodd
      · rw [applied_timesX hf hp hv (times_lt hp hlt d _), ← hsquare,
          ← Function.iterate_succ_apply' f]
        congr 1
        omega
      · rw [← hsquare]
        congr 1
        omega

end Polynomials

end Period
