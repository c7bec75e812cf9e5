import Mathlib.Algebra.Order.Floor.Ring
import Mathlib.Algebra.Order.Group.MinMax
import Mathlib.Data.Rat.Floor
import Mathlib.Tactic.Linarith

/-!
# Python numbers in exact arithmetic

A `float` is an extended rational: an exact rational, one of the two infinities, or NaN.
Finite arithmetic is exact; the special values follow IEEE 754 (`inf - inf`, `0 * inf` and
everything touching NaN are NaN, comparisons with NaN are false). `int(x)` truncates toward
zero and raises on the special values.
-/

namespace MonitoringRobot.Base

/-- The exception classes a callback can meet. -/
inductive PyError where
  | attributeError
  | overflowError
  | serialException
  | valueError
  | zeroDivisionError
  deriving DecidableEq, Repr

/-- `int(q)` of a finite number: truncation toward zero. -/
def truncate (q : ℚ) : ℤ := if 0 ≤ q then ⌊q⌋ else ⌈q⌉

@[simp] theorem truncate_intCast (n : ℤ) : truncate (n : ℚ) = n := by
  unfold truncate
  split
  · exact Int.floor_intCast n
  · exact Int.ceil_intCast n

@[simp] theorem truncate_zero : truncate 0 = 0 := truncate_intCast 0

theorem truncate_mono {q r : ℚ} (h : q ≤ r) : truncate q ≤ truncate r := by
  unfold truncate
  split <;> split
  · exact Int.floor_mono h
  · next hq hr => exact absurd (hq.trans h) hr
  · next hq hr =>
    have hc : ⌈q⌉ ≤ 0 := Int.ceil_le.mpr (by simpa using (not_le.mp hq).le)
    exact hc.trans (Int.floor_nonneg.mpr hr)
  · exact Int.ceil_mono h

theorem truncate_neg (q : ℚ) : truncate (-q) = -truncate q := by
  unfold truncate
  rcases lt_trichotomy q 0 with hq | hq | hq
  · rw [if_pos (by linarith), if_neg (not_le.mpr hq), Int.floor_neg]
  · rw [hq]
    simp
  · rw [if_neg (by linarith), if_pos hq.le, Int.ceil_neg]

/-- An integer below a number stays below its truncation. -/
theorem le_truncate {n : ℤ} {q : ℚ} (h : (n : ℚ) ≤ q) : n ≤ truncate q := by
  have hm := truncate_mono h
  rwa [truncate_intCast] at hm

/-- A positive integer is below a truncation only if it is below the number. -/
theorem le_truncate_iff {n : ℤ} (hn : 0 < n) {q : ℚ} : n ≤ truncate q ↔ (n : ℚ) ≤ q := by
  constructor
  · intro h
    unfold truncate at h
    split at h
    · exact Int.le_floor.mp h
    · next hq =>
      have hceil : ⌈q⌉ ≤ 0 := Int.ceil_le.mpr (by simpa using (not_le.mp hq).le)
      omega
  · exact le_truncate

/-- `np.clip(x, lo, hi)`. -/
def clip (x lo hi : ℚ) : ℚ := min (max x lo) hi

theorem clip_mono {x y : ℚ} (lo hi : ℚ) (h : x ≤ y) : clip x lo hi ≤ clip y lo hi :=
  min_le_min_right hi (max_le_max_right lo h)

/-- Clipping to a range around zero keeps positive numbers positive, and no others are. -/
theorem clip_pos {x lo hi : ℚ} (hlo : lo < 0) (hhi : 0 < hi) : 0 < clip x lo hi ↔ 0 < x := by
  simp [clip, hhi, hlo.le]

/-- Clipping to a range around zero keeps negative numbers negative, and no others are. -/
theorem clip_neg {x lo hi : ℚ} (hlo : lo < 0) (hhi : 0 < hi) : clip x lo hi < 0 ↔ x < 0 := by
  simp [clip, hlo, hhi.le]

theorem abs_clip {r : ℚ} (hr : 0 ≤ r) (x : ℚ) : |clip x (-r) r| = min |x| r := by
  unfold clip
  rcases le_total 0 x with hx | hx
  · rw [max_eq_left (by linarith), abs_of_nonneg hx, abs_of_nonneg (le_min hx hr)]
  · rw [abs_of_nonpos hx, min_eq_left (max_le (by linarith) (by linarith)),
      abs_of_nonpos (max_le hx (by linarith)), ← min_neg_neg, neg_neg]

/-- Clipping to a symmetric range treats both signs alike. -/
theorem clip_neg_left {r : ℚ} (hr : 0 ≤ r) (x : ℚ) : clip (-x) (-r) r = -clip x (-r) r := by
  unfold clip
  rcases le_total x (-r) with hlo | hlo
  · rw [max_eq_left (by linarith), min_eq_right (by linarith), max_eq_right hlo,
      min_eq_left (by linarith), neg_neg]
  · rcases le_total x r with hhi | hhi
    · rw [max_eq_left (neg_le_neg hhi), min_eq_left (by linarith), max_eq_left hlo,
        min_eq_left hhi]
    · rw [max_eq_right (neg_le_neg hhi), min_eq_left (by linarith), max_eq_left hlo,
        min_eq_right hhi]

/-- A sum and a difference are both small exactly when the magnitudes together are. -/
theorem abs_add_abs_lt {a b c : ℚ} : |a| + |b| < c ↔ |a - b| < c ∧ |a + b| < c := by
  constructor
  · intro h
    exact ⟨(abs_sub a b).trans_lt h, (abs_add_le a b).trans_lt h⟩
  · intro h
    rw [abs_lt, abs_lt] at h
    rcases abs_choice a with ha | ha <;> rcases abs_choice b with hb | hb <;> rw [ha, hb] <;>
      linarith [h.1.1, h.1.2, h.2.1, h.2.2]

/-- `np.sign(x)`. -/
def npSign (x : ℚ) : ℚ := if x < 0 then -1 else if 0 < x then 1 else 0

theorem npSign_neg (x : ℚ) : npSign (-x) = -npSign x := by
  unfold npSign
  rcases lt_trichotomy x 0 with hx | hx | hx
  · rw [if_neg (by linarith), if_pos (by linarith), if_pos hx, neg_neg]
  · rw [hx]
    simp
  · rw [if_pos (by linarith), if_neg (by linarith), if_pos hx]

/-- The integer nearest to a number, the even one of two. -/
def roundHalfEven (q : ℚ) : ℤ :=
  if q - ⌊q⌋ < 1 / 2 then ⌊q⌋
  else if 1 / 2 < q - ⌊q⌋ then ⌊q⌋ + 1
  else if ⌊q⌋ % 2 = 0 then ⌊q⌋ else ⌊q⌋ + 1

/-- `round(q, 2)`. -/
def round2 (q : ℚ) : ℚ := roundHalfEven (100 * q) / 100

theorem abs_roundHalfEven_sub (q : ℚ) : |(roundHalfEven q : ℚ) - q| ≤ 1 / 2 := by
  have hlo := Int.floor_le q
  have hhi := Int.lt_floor_add_one q
  unfold roundHalfEven
  rw [abs_le]
  split
  · constructor <;> linarith
  · split
    · push_cast
      constructor <;> linarith
    · split
      · constructor <;> linarith
      · push_cast
        constructor <;> linarith

/-- Numbers on the two sides of an odd number of half hundredths are rounded differently. -/
theorem round2_ne_of_between {x y : ℚ} {k : ℤ} (hx : 200 * x < 2 * k + 1)
    (hy : 2 * k + 1 < 200 * y) : round2 x ≠ round2 y := by
  intro h
  have hint : (roundHalfEven (100 * x) : ℚ) = roundHalfEven (100 * y) := by
    unfold round2 at h
    linarith
  have hrx := (abs_le.mp (abs_roundHalfEven_sub (100 * x))).2
  have hry := (abs_le.mp (abs_roundHalfEven_sub (100 * y))).1
  have hlow : (roundHalfEven (100 * x) : ℚ) < ((k + 1 : ℤ) : ℚ) := by
    push_cast
    linarith
  have hhigh : ((k : ℤ) : ℚ) < roundHalfEven (100 * y) := by linarith
  have hle := Int.lt_add_one_iff.mp (Int.cast_lt.mp hlow)
  have hlt := Int.cast_lt.mp hhigh
  have heq := Int.cast_injective hint
  omega

/-- Numbers more than a hundredth apart are rounded differently. -/
theorem round2_ne_of_far {x y : ℚ} (h : 1 / 100 < |x - y|) : round2 x ≠ round2 y := by
  intro heq
  have hint : (roundHalfEven (100 * x) : ℚ) = roundHalfEven (100 * y) := by
    unfold round2 at heq
    linarith
  have hx := abs_le.mp (abs_roundHalfEven_sub (100 * x))
  have hy := abs_le.mp (abs_roundHalfEven_sub (100 * y))
  rcases lt_abs.mp h with hpos | hneg
  · linarith [hx.1, hy.2]
  · linarith [hx.2, hy.1]

/-- A `float`: an exact rational or one of the special values. `inf true` is `-inf`. -/
inductive ExtRat where
  | fin (q : ℚ)
  | inf (negative : Bool)
  | nan
  deriving DecidableEq

namespace ExtRat

/-- Neither an infinity nor NaN. -/
def IsFinite : ExtRat → Prop
  | fin _ => True
  | _ => False

instance : DecidablePred IsFinite := fun x ↦
  match x with
  | fin _ => .isTrue trivial
  | inf _ => .isFalse id
  | nan => .isFalse id

/-- Sign change; NaN stays NaN. -/
def neg : ExtRat → ExtRat
  | fin q => fin (-q)
  | inf s => inf (!s)
  | nan => nan

/-- Sum; infinities of opposite signs give NaN. -/
def add : ExtRat → ExtRat → ExtRat
  | fin a, fin b => fin (a + b)
  | nan, _ => nan
  | _, nan => nan
  | inf s, inf t => if s = t then inf s else nan
  | inf s, fin _ => inf s
  | fin _, inf t => inf t

/-- Product; zero times an infinity gives NaN. -/
def mul : ExtRat → ExtRat → ExtRat
  | fin a, fin b => fin (a * b)
  | nan, _ => nan
  | _, nan => nan
  | inf s, inf t => inf (xor s t)
  | inf s, fin b => if b = 0 then nan else inf (xor s (decide (b < 0)))
  | fin a, inf t => if a = 0 then nan else inf (xor (decide (a < 0)) t)

instance : Neg ExtRat := ⟨neg⟩
instance : Add ExtRat := ⟨add⟩
instance : Mul ExtRat := ⟨mul⟩
instance : Sub ExtRat := ⟨fun x y ↦ add x (neg y)⟩

/-- `abs(x)`. -/
def abs : ExtRat → ExtRat
  | fin q => fin |q|
  | inf _ => inf false
  | nan => nan

/-- `x < y`; false as soon as one side is NaN. -/
def lt : ExtRat → ExtRat → Bool
  | fin a, fin b => decide (a < b)
  | nan, _ => false
  | _, nan => false
  | inf s, inf t => s && !t
  | inf s, fin _ => s
  | fin _, inf t => !t

/-- `int(x)`: `OverflowError` on an infinity, `ValueError` on NaN. -/
def toInt : ExtRat → Except PyError ℤ
  | fin q => .ok (truncate q)
  | inf _ => .error .overflowError
  | nan => .error .valueError

@[simp] theorem isFinite_fin (q : ℚ) : IsFinite (fin q) := trivial
@[simp] theorem not_isFinite_inf (s : Bool) : ¬ IsFinite (inf s) := id
@[simp] theorem not_isFinite_nan : ¬ IsFinite nan := id

@[simp] theorem fin_add (a b : ℚ) : fin a + fin b = fin (a + b) := rfl
@[simp] theorem fin_mul (a b : ℚ) : fin a * fin b = fin (a * b) := rfl
@[simp] theorem abs_fin (a : ℚ) : abs (fin a) = fin |a| := rfl
@[simp] theorem lt_fin (a b : ℚ) : lt (fin a) (fin b) = decide (a < b) := rfl
@[simp] theorem toInt_fin (a : ℚ) : toInt (fin a) = .ok (truncate a) := rfl

@[simp] theorem fin_sub (a b : ℚ) : fin a - fin b = fin (a - b) := by
  change fin (a + -b) = fin (a - b)
  rw [sub_eq_add_neg]

theorem isFinite_iff {x : ExtRat} : IsFinite x ↔ ∃ q, x = fin q := by
  cases x <;> simp

@[simp] theorem isFinite_add {x y : ExtRat} : IsFinite (x + y) ↔ IsFinite x ∧ IsFinite y := by
  change IsFinite (add x y) ↔ _
  cases x <;> cases y <;> simp only [add]
  case inf.inf s t => split <;> simp
  all_goals simp

/-- A special value survives a product: no product with it becomes finite again. -/
@[simp] theorem isFinite_mul {x y : ExtRat} : IsFinite (x * y) ↔ IsFinite x ∧ IsFinite y := by
  change IsFinite (mul x y) ↔ _
  cases x <;> cases y <;> simp only [mul]
  case fin.inf => split <;> simp
  case inf.fin => split <;> simp
  all_goals simp

@[simp] theorem isFinite_sub {x y : ExtRat} : IsFinite (x - y) ↔ IsFinite x ∧ IsFinite y := by
  change IsFinite (x + neg y) ↔ _
  rw [isFinite_add]
  cases y <;> simp [neg]

@[simp] theorem isFinite_abs {x : ExtRat} : IsFinite (abs x) ↔ IsFinite x := by
  cases x <;> simp [abs]

/-- Only a finite number has a magnitude below a rational bound. -/
theorem isFinite_of_abs_lt {x : ExtRat} {q : ℚ} (h : lt (abs x) (fin q) = true) :
    IsFinite x := by
  cases x with
  | fin a => trivial
  | inf s => simp [abs, lt] at h
  | nan => simp [abs, lt] at h

theorem toInt_ok_iff {x : ExtRat} : (∃ n, toInt x = .ok n) ↔ IsFinite x := by
  cases x <;> simp [toInt]

end ExtRat

end MonitoringRobot.Base
