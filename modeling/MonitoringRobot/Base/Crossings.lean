import Mathlib.Algebra.Order.Ring.Int
import Mathlib.Data.List.Basic
import Mathlib.Tactic.Ring

/-!
# Steps over the multiples of a number

A value that grows in equal steps, none longer than `M`, passes a multiple of `M` in exactly
those steps behind which the remainder is below the step. Their number in a run of steps is
the difference of two quotients.
-/

namespace MonitoringRobot.Base

variable {M d : Int}

/-- One step passes a multiple exactly when the remainder behind it is below the step. -/
theorem ediv_add_step (hM : 0 < M) (h0 : 0 ≤ d) (hd : d ≤ M) (x : Int) :
    (x + d) / M = x / M + if (x + d) % M < d then 1 else 0 := by
  have hsplit := Int.emod_add_mul_ediv x M
  have hlow := Int.emod_nonneg x (Int.ne_of_gt hM)
  have hhigh := Int.emod_lt_of_pos x hM
  by_cases hpass : x % M + d < M
  · have hdiv := (Int.ediv_emod_unique (a := x + d) (r := x % M + d) (q := x / M) hM).mpr
      ⟨by rw [add_right_comm, hsplit], by omega, hpass⟩
    rw [hdiv.1, hdiv.2, if_neg (by omega), add_zero]
  · have hdiv := (Int.ediv_emod_unique (a := x + d) (r := x % M + d - M) (q := x / M + 1)
      hM).mpr ⟨by rw [mul_add, mul_one]; omega, by omega, by omega⟩
    rw [hdiv.1, hdiv.2, if_pos (by omega)]

/-- The multiples passed in a run of steps, counted by the remainders. -/
theorem countP_steps (hM : 0 < M) (h0 : 0 ≤ d) (hd : d ≤ M) (x : Int) (n : Nat) :
    ((List.range n).countP fun k : Nat ↦ decide ((x + k * d + d) % M < d) : Int) =
      (x + n * d) / M - x / M := by
  induction n with
  | zero => simp
  | succ n ih =>
    have hstep := ediv_add_step hM h0 hd (x + n * d)
    have hnext : x + ((n + 1 : Nat) : Int) * d = x + n * d + d := by
      push_cast
      ring
    rw [List.range_succ, List.countP_append, List.countP_singleton, Nat.cast_add, ih, hnext,
      hstep]
    by_cases hpass : (x + n * d + d) % M < d
    · rw [if_pos hpass, if_pos (decide_eq_true hpass)]
      push_cast
      ring
    · rw [if_neg hpass, if_neg (by simpa using hpass)]
      push_cast
      ring

end MonitoringRobot.Base
