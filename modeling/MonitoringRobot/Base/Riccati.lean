import Mathlib.Algebra.Order.Field.Basic
import Mathlib.Logic.Function.Iterate
import Mathlib.Tactic.FieldSimp
import Mathlib.Tactic.Linarith
import Mathlib.Tactic.Positivity
import Mathlib.Tactic.Ring
import MonitoringRobot.Base.Smoothing

/-!
# The scalar Riccati recursion

The variance `p` of an estimate grows by `q` and is then reduced by a measurement of variance
`r`; the gain of the measurement is what was reduced, in units of `r`. The recursion has one
positive fixed point, moves toward it monotonically, and contracts the distance to it.
-/

namespace MonitoringRobot.Base.Riccati

universe u

variable {α : Type u} [Field α]

/-- The gain of the next measurement. -/
def gain (q r p : α) : α := (p + q) / (p + q + r)

/-- The variance after the next measurement. -/
def next (q r p : α) : α := (1 - gain q r p) * (p + q)

/-- The gains of the next `n` measurements. -/
def gains (q r : α) : ℕ → α → List α
  | 0, _ => []
  | n + 1, p => gain q r p :: gains q r n (next q r p)

@[simp] theorem length_gains (q r : α) (n : ℕ) (p : α) : (gains q r n p).length = n := by
  induction n generalizing p with
  | zero => rfl
  | succ n ih => rw [gains, List.length_cons, ih]

/-- The last gain is that of the variance reached before. -/
theorem gains_succ (q r : α) (n : ℕ) (p : α) :
    gains q r (n + 1) p = gains q r n p ++ [gain q r ((next q r)^[n] p)] := by
  induction n generalizing p with
  | zero => rfl
  | succ n ih => rw [gains, ih, gains, List.cons_append, Function.iterate_succ_apply]

section Order

variable [LinearOrder α] [IsStrictOrderedRing α] {q r p : α}

theorem gain_pos (hq : 0 ≤ q) (hr : 0 < r) (hp : 0 < p) : 0 < gain q r p := by
  unfold gain
  positivity

theorem gain_lt_one (hq : 0 ≤ q) (hr : 0 < r) (hp : 0 < p) : gain q r p < 1 := by
  have hd : 0 < p + q + r := by positivity
  rw [gain, div_lt_one hd]
  linarith

/-- The gain is the reduced variance in units of the measurement's. -/
theorem next_eq (hq : 0 ≤ q) (hr : 0 < r) (hp : 0 < p) : next q r p = r * gain q r p := by
  have hd : p + q + r ≠ 0 := by positivity
  unfold next gain
  field_simp
  ring

theorem next_pos (hq : 0 ≤ q) (hr : 0 < r) (hp : 0 < p) : 0 < next q r p := by
  rw [next_eq hq hr hp]
  exact mul_pos hr (gain_pos hq hr hp)

theorem next_lt (hq : 0 ≤ q) (hr : 0 < r) (hp : 0 < p) : next q r p < r := by
  rw [next_eq hq hr hp]
  exact mul_lt_of_lt_one_right hr (gain_lt_one hq hr hp)

theorem iterate_next_pos (hq : 0 ≤ q) (hr : 0 < r) (hp : 0 < p) (n : ℕ) :
    0 < (next q r)^[n] p := by
  induction n with
  | zero => exact hp
  | succ n ih =>
    rw [Function.iterate_succ_apply']
    exact next_pos hq hr ih

theorem proper_gains (hq : 0 ≤ q) (hr : 0 < r) (hp : 0 < p) (n : ℕ) :
    Smoothing.Proper (gains q r n p) := by
  induction n generalizing p with
  | zero =>
    intro g hg
    cases hg
  | succ n ih =>
    intro g hg
    rcases List.mem_cons.mp hg with hg | hg
    · rw [hg]
      exact ⟨gain_pos hq hr hp, gain_lt_one hq hr hp⟩
    · exact ih (next_pos hq hr hp) g hg

/-- A positive solution of the fixed-point equation. -/
structure Steady (q r s : α) : Prop where
  pos : 0 < s
  equation : s ^ 2 + q * s = q * r

variable {s : α}

theorem Steady.unique {t : α} (hq : 0 ≤ q) (hs : Steady q r s) (ht : Steady q r t) : s = t := by
  have hsum : s + t + q ≠ 0 := (add_pos_of_pos_of_nonneg (add_pos hs.pos ht.pos) hq).ne'
  have hprod : (s - t) * (s + t + q) = 0 := by
    linear_combination hs.equation - ht.equation
  rcases mul_eq_zero.mp hprod with h | h
  · exact sub_eq_zero.mp h
  · exact absurd h hsum

/-- The fixed point lies below a variance exactly when the equation's left side does. -/
theorem Steady.lt_iff (hq : 0 ≤ q) (hs : Steady q r s) (hp : 0 < p) :
    s < p ↔ q * r < p ^ 2 + q * p := by
  have hsum : 0 < p + s + q := add_pos_of_pos_of_nonneg (add_pos hp hs.pos) hq
  have hprod : p ^ 2 + q * p - q * r = (p - s) * (p + s + q) := by
    linear_combination hs.equation
  rw [← sub_pos, ← sub_pos (b := q * r), hprod, mul_pos_iff_of_pos_right hsum]

/-- One measurement takes the variance toward the fixed point, without crossing it. -/
theorem Steady.next_sub (hq : 0 ≤ q) (hr : 0 < r) (hp : 0 < p) (hs : Steady q r s) :
    next q r p - s = r ^ 2 / ((p + q + r) * (s + q + r)) * (p - s) := by
  have hspos := hs.pos
  have hd : p + q + r ≠ 0 := by positivity
  have he : s + q + r ≠ 0 := by positivity
  have hfix : s * (s + q + r) = (s + q) * r := by
    linear_combination hs.equation
  have hsteady : s = (s + q) * r / (s + q + r) := by
    rw [eq_div_iff he, hfix]
  have hnext : next q r p = (p + q) * r / (p + q + r) := by
    rw [next_eq hq hr hp, gain]
    ring
  calc next q r p - s = (p + q) * r / (p + q + r) - (s + q) * r / (s + q + r) := by
        rw [hnext, ← hsteady]
    _ = r ^ 2 / ((p + q + r) * (s + q + r)) * (p - s) := by
        field_simp
        ring

theorem Steady.factor_pos (hq : 0 ≤ q) (hr : 0 < r) (hp : 0 < p) (hs : Steady q r s) :
    0 < r ^ 2 / ((p + q + r) * (s + q + r)) := by
  have hspos := hs.pos
  positivity

/-- The factor is at most the square of the measurement's share. -/
theorem Steady.factor_le (hq : 0 ≤ q) (hr : 0 < r) (hp : 0 < p) (hs : Steady q r s) :
    r ^ 2 / ((p + q + r) * (s + q + r)) ≤ (r / (q + r)) ^ 2 := by
  have hqr : 0 < q + r := add_pos_of_nonneg_of_pos hq hr
  have hspos := hs.pos
  rw [div_pow, sq (q + r)]
  apply div_le_div_of_nonneg_left (sq_nonneg r) (mul_pos hqr hqr)
  apply mul_le_mul
  · linarith
  · linarith
  · exact hqr.le
  · linarith

theorem Steady.factor_lt_one (hq : 0 ≤ q) (hr : 0 < r) (hp : 0 < p) (hs : Steady q r s) :
    r ^ 2 / ((p + q + r) * (s + q + r)) < 1 := by
  have hspos := hs.pos
  have hd : 0 < (p + q + r) * (s + q + r) := by positivity
  rw [div_lt_one hd, sq]
  apply mul_lt_mul''
  · linarith
  · linarith
  · exact hr.le
  · exact hr.le

/-- Above the fixed point the variance falls, and stays above it. -/
theorem Steady.next_of_lt (hq : 0 ≤ q) (hr : 0 < r) (hp : 0 < p) (hs : Steady q r s)
    (h : s < p) : s < next q r p ∧ next q r p < p := by
  have hdist := hs.next_sub hq hr hp
  have hpos := mul_pos (hs.factor_pos hq hr hp) (sub_pos.mpr h)
  have hlt := mul_lt_mul_of_pos_right (hs.factor_lt_one hq hr hp) (sub_pos.mpr h)
  constructor <;> linarith

/-- Below the fixed point the variance rises, and stays below it. -/
theorem Steady.next_of_gt (hq : 0 ≤ q) (hr : 0 < r) (hp : 0 < p) (hs : Steady q r s)
    (h : p < s) : p < next q r p ∧ next q r p < s := by
  have hdist := hs.next_sub hq hr hp
  have hpos := mul_pos (hs.factor_pos hq hr hp) (sub_pos.mpr h)
  have hlt := mul_lt_mul_of_pos_right (hs.factor_lt_one hq hr hp) (sub_pos.mpr h)
  constructor <;> linarith

theorem Steady.next_self (hq : 0 ≤ q) (hr : 0 < r) (hs : Steady q r s) : next q r s = s := by
  have hdist := hs.next_sub hq hr hs.pos
  rw [sub_self, mul_zero] at hdist
  exact sub_eq_zero.mp hdist

/-- Each measurement shrinks the distance to the fixed point by at least the square of the
measurement's share. -/
theorem Steady.abs_next_sub_le (hq : 0 ≤ q) (hr : 0 < r) (hp : 0 < p) (hs : Steady q r s) :
    |next q r p - s| ≤ (r / (q + r)) ^ 2 * |p - s| := by
  rw [hs.next_sub hq hr hp, abs_mul, abs_of_pos (hs.factor_pos hq hr hp)]
  exact mul_le_mul_of_nonneg_right (hs.factor_le hq hr hp) (abs_nonneg _)

/-- A run of measurements stays on its side of the fixed point. -/
theorem Steady.iterate_side (hq : 0 ≤ q) (hr : 0 < r) (hp : 0 < p) (hs : Steady q r s) (n : ℕ) :
    (s < p → s < (next q r)^[n] p) ∧ (p < s → (next q r)^[n] p < s) ∧
      (p = s → (next q r)^[n] p = s) := by
  induction n with
  | zero => exact ⟨id, id, id⟩
  | succ n ih =>
    have hpos := iterate_next_pos hq hr hp n
    rw [Function.iterate_succ_apply']
    refine ⟨?_, ?_, ?_⟩
    · intro h
      exact (hs.next_of_lt hq hr hpos (ih.1 h)).1
    · intro h
      exact (hs.next_of_gt hq hr hpos (ih.2.1 h)).2
    · intro h
      rw [ih.2.2 h]
      exact hs.next_self hq hr

theorem gain_lt_gain (hq : 0 ≤ q) (hr : 0 < r) {p' : α} (hp : 0 < p) (h : p < p') :
    gain q r p < gain q r p' := by
  have hp' : 0 < p' := hp.trans h
  have hd : 0 < p + q + r := by positivity
  have hd' : 0 < p' + q + r := by positivity
  have hdiff : gain q r p' - gain q r p = r * (p' - p) / ((p' + q + r) * (p + q + r)) := by
    unfold gain
    field_simp
    ring
  rw [← sub_pos, hdiff]
  exact div_pos (mul_pos hr (sub_pos.mpr h)) (mul_pos hd' hd)

theorem Steady.gain_self (hq : 0 ≤ q) (hr : 0 < r) (hs : Steady q r s) :
    gain q r s = s / r := by
  rw [eq_div_iff hr.ne', mul_comm, ← next_eq hq hr hs.pos, hs.next_self hq hr]

end Order

end MonitoringRobot.Base.Riccati
