import Mathlib

/-!
# The generator of the C programs

`rand.c`: a xorshift. The state is a global; `rand` leaves in it what it returns.
-/

namespace PassiFlo

namespace Soft

/-- `rand_init`: the state it leaves. -/
def randInit (seed : BitVec 64) : BitVec 64 := seed

/-- What `rand` returns, and leaves as the state. -/
def rand (state : BitVec 64) : BitVec 64 :=
  let x := state
  let x := x ^^^ (x <<< 13)
  let x := x ^^^ (x >>> 7)
  x ^^^ (x <<< 17)

/-- Some calls of `rand`, one after another: what they return, and the state they leave. -/
def randCalls : ℕ → BitVec 64 → List (BitVec 64) × BitVec 64
  | 0, state => ([], state)
  | n + 1, state =>
      let x := rand state
      let rest := randCalls n x
      (x :: rest.1, rest.2)

end Soft

end PassiFlo
