import Mathlib.Algebra.BigOperators.Group.List.Basic
import Mathlib.Algebra.Order.Field.Basic
import Mathlib.Tactic.Linarith
import Mathlib.Tactic.LinearCombination
import Mathlib.Tactic.Ring

/-!
# Exponential smoothing

An estimate is moved toward each measurement of a sequence by that measurement's gain. The
result is a weighted sum of the start value and the measurements, with weights made of the
gains alone; with gains between zero and one it is a weighted average.
-/

namespace MonitoringRobot.Base.Smoothing

universe u

variable {α : Type u} [Field α]

/-- The start value moved toward each measurement by its gain. -/
def smooth : α → List α → List α → α
  | x, g :: gs, m :: ms => smooth (x + g * (m - x)) gs ms
  | x, _, _ => x

/-- What is left of the start value. -/
def startWeight (gs : List α) : α := (gs.map fun g ↦ 1 - g).prod

/-- What is left of each measurement. -/
def weights : List α → List α
  | [] => []
  | g :: gs => g * startWeight gs :: weights gs

@[simp] theorem smooth_nil (x : α) : smooth x [] [] = x := rfl

theorem smooth_cons (x g m : α) (gs ms : List α) :
    smooth x (g :: gs) (m :: ms) = smooth (x + g * (m - x)) gs ms := rfl

@[simp] theorem startWeight_nil : startWeight ([] : List α) = 1 := rfl

theorem startWeight_cons (g : α) (gs : List α) :
    startWeight (g :: gs) = (1 - g) * startWeight gs := by
  simp [startWeight]

theorem startWeight_concat (gs : List α) (g : α) :
    startWeight (gs ++ [g]) = startWeight gs * (1 - g) := by
  simp [startWeight]

@[simp] theorem length_weights (gs : List α) : (weights gs).length = gs.length := by
  induction gs with
  | nil => rfl
  | cons g gs ih => rw [weights, List.length_cons, List.length_cons, ih]

theorem startWeight_add_sum (gs : List α) : startWeight gs + (weights gs).sum = 1 := by
  induction gs with
  | nil => simp [weights]
  | cons g gs ih =>
    rw [startWeight_cons, weights, List.sum_cons]
    linear_combination ih

/-- The estimate is the weighted sum of the start value and the measurements. -/
theorem smooth_eq (x : α) {gs ms : List α} (h : gs.length = ms.length) :
    smooth x gs ms = startWeight gs * x + (List.zipWith (· * ·) (weights gs) ms).sum := by
  induction gs generalizing x ms with
  | nil =>
    rw [List.length_nil, eq_comm, List.length_eq_zero_iff] at h
    rw [h]
    simp [weights]
  | cons g gs ih =>
    cases ms with
    | nil => cases h
    | cons m ms =>
      rw [List.length_cons, List.length_cons, Nat.add_right_cancel_iff] at h
      rw [smooth_cons, ih _ h, startWeight_cons, weights, List.zipWith_cons_cons, List.sum_cons]
      ring

/-- From two start values the estimates differ by what is left of the difference. -/
theorem smooth_sub_smooth (x y : α) {gs ms : List α} (h : gs.length = ms.length) :
    smooth y gs ms - smooth x gs ms = startWeight gs * (y - x) := by
  rw [smooth_eq x h, smooth_eq y h]
  ring

section Order

variable [LinearOrder α] [IsStrictOrderedRing α] {gs : List α}

/-- Gains strictly between zero and one. -/
def Proper (gs : List α) : Prop := ∀ g ∈ gs, 0 < g ∧ g < 1

theorem startWeight_pos (h : Proper gs) : 0 < startWeight gs := by
  induction gs with
  | nil => exact one_pos
  | cons g gs ih =>
    rw [startWeight_cons]
    apply mul_pos
    · exact sub_pos.mpr (h g List.mem_cons_self).2
    · exact ih fun k hk ↦ h k (List.mem_cons_of_mem g hk)

theorem weights_pos (h : Proper gs) : ∀ w ∈ weights gs, 0 < w := by
  induction gs with
  | nil =>
    intro w hw
    cases hw
  | cons g gs ih =>
    have htail : Proper gs := fun k hk ↦ h k (List.mem_cons_of_mem g hk)
    intro w hw
    rcases List.mem_cons.mp hw with hw | hw
    · rw [hw]
      exact mul_pos (h g List.mem_cons_self).1 (startWeight_pos htail)
    · exact ih htail w hw

theorem startWeight_concat_lt (h : Proper gs) {g : α} (hg : 0 < g) :
    startWeight (gs ++ [g]) < startWeight gs := by
  rw [startWeight_concat]
  exact mul_lt_of_lt_one_right (startWeight_pos h) (by linarith)

/-- The estimate is monotone in the start value and in every measurement. -/
theorem smooth_mono (h : Proper gs) {x y : α} (hxy : x ≤ y) {ms ns : List α}
    (hms : List.Forall₂ (· ≤ ·) ms ns) : smooth x gs ms ≤ smooth y gs ns := by
  induction gs generalizing x y ms ns with
  | nil => exact hxy
  | cons g gs ih =>
    cases hms with
    | nil => exact hxy
    | @cons m n ms ns hmn hms =>
      obtain ⟨hpos, hlt⟩ := h g List.mem_cons_self
      rw [smooth_cons, smooth_cons]
      apply ih (fun k hk ↦ h k (List.mem_cons_of_mem g hk)) _ hms
      have hold := mul_le_mul_of_nonneg_left hxy (show 0 ≤ 1 - g by linarith)
      have hnew := mul_le_mul_of_nonneg_left hmn hpos.le
      linarith

/-- The estimate stays in every range that holds the start value and the measurements. -/
theorem smooth_mem_range (h : Proper gs) {x lo hi : α} (hx : lo ≤ x ∧ x ≤ hi) {ms : List α}
    (hms : ∀ m ∈ ms, lo ≤ m ∧ m ≤ hi) : lo ≤ smooth x gs ms ∧ smooth x gs ms ≤ hi := by
  induction gs generalizing x ms with
  | nil => exact hx
  | cons g gs ih =>
    cases ms with
    | nil => exact hx
    | cons m ms =>
      obtain ⟨hpos, hlt⟩ := h g List.mem_cons_self
      obtain ⟨hlo, hhi⟩ := hms m List.mem_cons_self
      have hstay : 0 ≤ 1 - g := by linarith
      rw [smooth_cons]
      apply ih (fun k hk ↦ h k (List.mem_cons_of_mem g hk)) _
        fun n hn ↦ hms n (List.mem_cons_of_mem m hn)
      constructor
      · have hold := mul_le_mul_of_nonneg_left hx.1 hstay
        have hnew := mul_le_mul_of_nonneg_left hlo hpos.le
        linarith
      · have hold := mul_le_mul_of_nonneg_left hx.2 hstay
        have hnew := mul_le_mul_of_nonneg_left hhi hpos.le
        linarith

end Order

end MonitoringRobot.Base.Smoothing
