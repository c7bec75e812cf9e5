import Mathlib.Algebra.Order.Archimedean.Basic
import Mathlib.Order.Lattice.Nat
import MonitoringRobot.Base.Rounding
import MonitoringRobot.Relay.Pwm

/-!
# Which packets are drivable

`CmdVelToSerial.map_to_pwm` and the arithmetic half of `listener_callback` once more, each
operation on a `float` rounded as a `double` is
(`edge_packages/src/rssi/rssi/velocity_relay.py:55-85`). The clamp comes before the trim: a trim
above one leaves the range at its upper end and a trim below one at its lower end, at the speeds
`TrimFits` excludes.
-/

namespace MonitoringRobot.Relay.Doubles
open MonitoringRobot.Base MonitoringRobot.Ros

/-! ### The callback -/

/-- `0.01`. -/
def deadband : ℚ := f64 (1 / 100)

/-- `map_to_pwm`; `velocity_relay.py:55-65`. An integer becomes a `float` where it meets one. -/
def mapToPwm (p : Params) (val : ExtRat) : Except PyError ℤ :=
  if val.abs.lt (.fin deadband) then .ok 0
  else do
    let scaled := (val.abs * (ExtRat.fin (p.maxPwm - p.minPwm)).double).double
    let pwm ← ((ExtRat.fin p.minPwm).double + scaled).double.toInt
    let pwm := min pwm p.maxPwm
    .ok (if ExtRat.lt (.fin 0) val then pwm else -pwm)

/-- `angular * sep / 2.0`. -/
def halfTurn (p : Params) (msg : Twist ExtRat) : ExtRat :=
  ((msg.angularZ * .fin p.wheelSeparation).double * .fin (1 / 2)).double

/-- `left_speed`; `velocity_relay.py:73`. -/
def leftSpeed (p : Params) (msg : Twist ExtRat) : ExtRat :=
  (msg.linearX - halfTurn p msg).double

/-- `right_speed`; `velocity_relay.py:74`. -/
def rightSpeed (p : Params) (msg : Twist ExtRat) : ExtRat :=
  (msg.linearX + halfTurn p msg).double

/-- `int(pwm * trim)`; `velocity_relay.py:81-82`. -/
def applyTrim (trim : ℚ) (pwm : ℤ) : Except PyError ℤ :=
  ((ExtRat.fin pwm).double * .fin trim).double.toInt

/-- The packet `listener_callback` builds before its `try`; `velocity_relay.py:68-85`. -/
def listenerPacket (p : Params) (msg : Twist ExtRat) : Except PyError Text := do
  let lPwm ← mapToPwm p (leftSpeed p msg)
  let rPwm ← mapToPwm p (rightSpeed p msg)
  let lPwm ← applyTrim p.leftTrim lPwm
  let rPwm ← applyTrim p.rightTrim rPwm
  .ok (packet lPwm rPwm)

/-! ### Closed forms -/

/-- The scaled speed before `int()`. -/
def scaled (p : Params) (val : ℚ) : ℚ :=
  f64 (f64 p.minPwm + f64 (|val| * f64 (p.maxPwm - p.minPwm)))

/-- `pwm` of `map_to_pwm` before its sign is restored. -/
def magnitude (p : Params) (val : ℚ) : ℤ := min (truncate (scaled p val)) p.maxPwm

/-- The scaled speed before truncation, cut at `max_pwm`. -/
def level (p : Params) (val : ℚ) : ℚ := min (scaled p val) p.maxPwm

/-- `map_to_pwm` on a finite speed. -/
def pwm (p : Params) (val : ℚ) : ℤ :=
  if |val| < deadband then 0 else if 0 < val then magnitude p val else -magnitude p val

/-- The product of a whole number and a trim. -/
def trimmed (trim : ℚ) (n : ℤ) : ℚ := f64 (f64 n * trim)

/-- The value of one wheel: `int(self.map_to_pwm(val) * trim)`. -/
def wheel (p : Params) (trim val : ℚ) : ℤ := truncate (trimmed trim (pwm p val))

private theorem bind_ok {α β : Type} {x : Except PyError α} {f : α → Except PyError β} {b : β}
    (h : (x >>= f) = .ok b) : ∃ a, x = .ok a ∧ f a = .ok b := by
  cases x with
  | error e => cases h
  | ok a => exact ⟨a, rfl, h⟩

private theorem toInt_double {q : ℚ} {n : ℤ} (h : (ExtRat.fin q).double.toInt = .ok n) :
    n = truncate (f64 q) := by
  rw [ExtRat.double_of_isFinite (ExtRat.toInt_ok_iff.mp ⟨n, h⟩), ExtRat.toInt_fin] at h
  exact (Except.ok.inj h).symm

/-- Where `map_to_pwm` returns, its speed is finite and the value has the closed form. -/
theorem mapToPwm_ok {p : Params} {val : ExtRat} {n : ℤ} (h : mapToPwm p val = .ok n) :
    ∃ q, val = .fin q ∧ n = pwm p q := by
  unfold mapToPwm at h
  split at h
  · next hlt =>
    obtain ⟨q, rfl⟩ := ExtRat.isFinite_iff.mp (ExtRat.isFinite_of_abs_lt hlt)
    refine ⟨q, rfl, ?_⟩
    rw [ExtRat.abs_fin, ExtRat.lt_fin, decide_eq_true_eq] at hlt
    rw [pwm, if_pos hlt]
    exact (Except.ok.inj h).symm
  · next hlt =>
    obtain ⟨m, hint, hn⟩ := bind_ok h
    have hsum := ExtRat.isFinite_of_double (ExtRat.toInt_ok_iff.mp ⟨m, hint⟩)
    rw [ExtRat.isFinite_add] at hsum
    obtain ⟨hmin, hscaled⟩ := hsum
    have hproduct := ExtRat.isFinite_of_double hscaled
    rw [ExtRat.isFinite_mul, ExtRat.isFinite_abs] at hproduct
    obtain ⟨q, rfl⟩ := ExtRat.isFinite_iff.mp hproduct.1
    rw [ExtRat.double_of_isFinite hproduct.2, ExtRat.abs_fin, ExtRat.fin_mul] at hscaled hint
    rw [ExtRat.double_of_isFinite hmin, ExtRat.double_of_isFinite hscaled,
      ExtRat.fin_add] at hint
    rw [ExtRat.abs_fin, ExtRat.lt_fin, decide_eq_true_eq] at hlt
    refine ⟨q, rfl, ?_⟩
    rw [← Except.ok.inj hn, ExtRat.lt_fin, pwm, if_neg hlt, magnitude, scaled, ← toInt_double hint]
    simp only [decide_eq_true_eq]

private theorem applyTrim_ok {trim : ℚ} {pwm n : ℤ} (h : applyTrim trim pwm = .ok n) :
    n = truncate (trimmed trim pwm) := by
  unfold applyTrim at h
  have hproduct := ExtRat.isFinite_of_double (ExtRat.toInt_ok_iff.mp ⟨n, h⟩)
  rw [ExtRat.isFinite_mul] at hproduct
  rw [ExtRat.double_of_isFinite hproduct.1, ExtRat.fin_mul] at h
  exact toInt_double h

/-- Where a packet is built, both speeds are finite and the values have the closed form. -/
theorem listenerPacket_ok {p : Params} {msg : Twist ExtRat} {t : Text}
    (h : listenerPacket p msg = .ok t) :
    ∃ l r, leftSpeed p msg = .fin l ∧ rightSpeed p msg = .fin r ∧
      t = packet (wheel p p.leftTrim l) (wheel p p.rightTrim r) := by
  obtain ⟨lPwm, hl, hafterLeft⟩ := bind_ok h
  obtain ⟨rPwm, hr, hafterRight⟩ := bind_ok hafterLeft
  obtain ⟨lTrimmed, hlTrim, hafterTrim⟩ := bind_ok hafterRight
  obtain ⟨rTrimmed, hrTrim, hpacket⟩ := bind_ok hafterTrim
  obtain ⟨l, hleft, hlPwm⟩ := mapToPwm_ok hl
  obtain ⟨r, hright, hrPwm⟩ := mapToPwm_ok hr
  refine ⟨l, r, hleft, hright, ?_⟩
  rw [← Except.ok.inj hpacket, applyTrim_ok hlTrim, applyTrim_ok hrTrim, hlPwm, hrPwm, wheel, wheel]

/-! ### The magnitudes -/

variable {p : Params} {trim val : ℚ}

theorem speed_ranges (val : ℚ) : val ≤ -deadband ∨ |val| < deadband ∨ deadband ≤ val := by
  by_cases h : |val| < deadband
  · exact .inr (.inl h)
  · rcases le_abs.mp (not_lt.mp h) with hv | hv
    · exact .inr (.inr hv)
    · exact .inl (le_neg.mp hv)

theorem deadband_pos : 0 < deadband := by decide +kernel

theorem pwm_of_le (p : Params) (h : deadband ≤ val) : pwm p val = magnitude p val := by
  have habs : ¬ |val| < deadband := not_lt.mpr (h.trans (le_abs_self val))
  rw [pwm, if_neg habs, if_pos (deadband_pos.trans_le h)]

@[simp] theorem magnitude_neg (p : Params) (val : ℚ) : magnitude p (-val) = magnitude p val := by
  simp only [magnitude, scaled, abs_neg]

theorem pwm_neg (p : Params) (val : ℚ) : pwm p (-val) = -pwm p val := by
  unfold pwm
  rw [abs_neg, magnitude_neg]
  split
  · rw [neg_zero]
  · next h =>
    rcases lt_trichotomy val 0 with hv | rfl | hv
    · rw [if_pos (by linarith), if_neg (by linarith), neg_neg]
    · rw [abs_zero] at h
      exact absurd deadband_pos h
    · rw [if_neg (by linarith), if_pos hv]

theorem trimmed_neg (trim : ℚ) (n : ℤ) : trimmed trim (-n) = -trimmed trim n := by
  rw [trimmed, Int.cast_neg, f64_neg, neg_mul, f64_neg, trimmed]

theorem wheel_neg (p : Params) (trim val : ℚ) : wheel p trim (-val) = -wheel p trim val := by
  rw [wheel, pwm_neg, trimmed_neg, truncate_neg, wheel]

/-- The least whole number that the trim takes to `k` or more. -/
noncomputable def least (trim : ℚ) (k : ℤ) : ℕ := sInf {n : ℕ | (k : ℚ) ≤ trimmed trim n}

theorem trimmed_mono (htrim : 0 < trim) {m n : ℤ} (h : m ≤ n) :
    trimmed trim m ≤ trimmed trim n := by
  apply f64_mono
  exact mul_le_mul_of_nonneg_right (f64_mono (Int.cast_le.mpr h)) htrim.le

theorem exists_le_trimmed (htrim : 0 < trim) (k : ℤ) : ∃ n : ℕ, (k : ℚ) ≤ trimmed trim n := by
  obtain ⟨n, hn⟩ := exists_nat_ge (4 * k / trim)
  refine ⟨n, ?_⟩
  rw [div_le_iff₀ htrim] at hn
  have hfloat : (n : ℚ) / 2 ≤ f64 (n : ℤ) := by
    exact_mod_cast half_le_roundTo (by decide) n.cast_nonneg
  have hproduct : f64 (n : ℤ) * trim / 2 ≤ trimmed trim n := by
    apply half_le_roundTo (by decide)
    exact mul_nonneg (f64_nonneg (by positivity)) htrim.le
  have hscaled := mul_le_mul_of_nonneg_right hfloat htrim.le
  linarith

/-- The numbers trimmed to `k` or more are those from the least one on. -/
theorem least_le_iff (htrim : 0 < trim) {k n : ℤ} (hn : 0 ≤ n) :
    (least trim k : ℤ) ≤ n ↔ (k : ℚ) ≤ trimmed trim n := by
  have hmem : (k : ℚ) ≤ trimmed trim (least trim k) := Nat.sInf_mem (exists_le_trimmed htrim k)
  constructor
  · intro h
    exact hmem.trans (trimmed_mono htrim h)
  · intro h
    lift n to ℕ using hn
    exact Int.ofNat_le.mpr (Nat.sInf_le h)

/-! ### When a packet is drivable -/

/-- The value of a wheel is drivable and goes the way of its speed: zero inside the deadband
and nowhere else, outside it with the sign of the speed and a magnitude in the range. -/
structure Drivable (p : Params) (val : ℚ) (n : ℤ) : Prop where
  stopped : n = 0 ↔ |val| < deadband
  forward : deadband ≤ val → 0 < n
  backward : val ≤ -deadband → n < 0
  range : deadband ≤ |val| → p.minPwm ≤ |n| ∧ |n| ≤ p.maxPwm

/-- The trim leaves a speed outside the deadband in the range: its level reaches the least
magnitude that is trimmed to `min_pwm`, and not the least one trimmed above `max_pwm`. -/
def TrimFits (p : Params) (trim val : ℚ) : Prop :=
  deadband ≤ |val| → (least trim p.minPwm : ℚ) ≤ level p val ∧
    level p val < least trim (p.maxPwm + 1)

theorem le_scaled (hmax : p.minPwm ≤ p.maxPwm) (val : ℚ) :
    f64 (f64 p.minPwm) ≤ scaled p val := by
  have hspan : (0 : ℚ) ≤ p.maxPwm - p.minPwm := sub_nonneg.mpr (Int.cast_le.mpr hmax)
  apply f64_mono
  apply le_add_of_nonneg_right
  exact f64_nonneg (mul_nonneg (abs_nonneg val) (f64_nonneg hspan))

theorem le_magnitude_iff {k : ℤ} (hk : 0 < k) (val : ℚ) :
    k ≤ magnitude p val ↔ (k : ℚ) ≤ level p val := by
  rw [magnitude, level, le_min_iff, le_min_iff, le_truncate_iff hk, Int.cast_le]

theorem magnitude_nonneg (hmin : 0 < p.minPwm) (hmax : p.minPwm ≤ p.maxPwm) (val : ℚ) :
    0 ≤ magnitude p val := by
  apply le_min
  · apply le_truncate
    rw [Int.cast_zero]
    exact (f64_nonneg (f64_nonneg (Int.cast_nonneg hmin.le))).trans (le_scaled hmax val)
  · omega

theorem least_pos (htrim : 0 < trim) {k : ℤ} (hk : 0 < k) : 0 < least trim k := by
  by_contra h
  have hzero := (least_le_iff htrim (k := k) (le_refl 0)).mp (by omega)
  rw [trimmed, Int.cast_zero, f64_zero, zero_mul, f64_zero] at hzero
  exact absurd (Int.cast_le.mp (hzero.trans_eq Int.cast_zero.symm)) (by omega)

/-- A trimmed magnitude reaches a positive integer exactly when the level reaches the least
magnitude trimmed to it. -/
theorem le_trimmed_iff (hmin : 0 < p.minPwm) (hmax : p.minPwm ≤ p.maxPwm) (htrim : 0 < trim)
    {k : ℤ} (hk : 0 < k) (val : ℚ) :
    k ≤ truncate (trimmed trim (magnitude p val)) ↔ (least trim k : ℚ) ≤ level p val := by
  have hleast : (0 : ℤ) < least trim k := Int.natCast_pos.mpr (least_pos htrim hk)
  rw [le_truncate_iff hk, ← least_le_iff htrim (magnitude_nonneg hmin hmax val),
    le_magnitude_iff hleast, Int.cast_natCast]

/-- A wheel outside the deadband stays in the range exactly when its trim fits. -/
theorem trimmed_range_iff (hmin : 0 < p.minPwm) (hmax : p.minPwm ≤ p.maxPwm)
    (htrim : 0 < trim) (hval : deadband ≤ |val|) :
    (p.minPwm ≤ truncate (trimmed trim (magnitude p val)) ∧
      truncate (trimmed trim (magnitude p val)) ≤ p.maxPwm) ↔ TrimFits p trim val := by
  have hupper := le_trimmed_iff hmin hmax htrim (show 0 < p.maxPwm + 1 by omega) val
  rw [le_trimmed_iff hmin hmax htrim hmin, ← Int.lt_add_one_iff, ← not_le, hupper, not_le]
  constructor
  · intro h _
    exact h
  · intro h
    exact h hval

theorem Drivable.neg {n : ℤ} (h : Drivable p val n) : Drivable p (-val) (-n) := by
  constructor
  · rw [abs_neg, neg_eq_zero]
    exact h.stopped
  · intro hf
    have hneg := h.backward (by linarith)
    omega
  · intro hb
    have hpos := h.forward (by linarith)
    omega
  · rw [abs_neg, abs_neg]
    exact h.range

theorem trimFits_neg : TrimFits p trim (-val) ↔ TrimFits p trim val := by
  simp only [TrimFits, level, scaled, abs_neg]

/-- A wheel driven forward is drivable exactly when its trim fits. -/
theorem drivable_forward_iff (hmin : 0 < p.minPwm) (hmax : p.minPwm ≤ p.maxPwm)
    (htrim : 0 < trim) (h : deadband ≤ val) :
    Drivable p val (wheel p trim val) ↔ TrimFits p trim val := by
  have hval : deadband ≤ |val| := h.trans (le_abs_self val)
  have hwheel : wheel p trim val = truncate (trimmed trim (magnitude p val)) := by
    rw [wheel, pwm_of_le p h]
  rw [← trimmed_range_iff hmin hmax htrim hval, hwheel]
  constructor
  · intro hd
    have hrange := hd.range hval
    rw [abs_of_pos (hd.forward h)] at hrange
    exact hrange
  · intro hrange
    have hpos : 0 < truncate (trimmed trim (magnitude p val)) := by omega
    constructor
    · exact ⟨fun hz ↦ by omega, fun hd ↦ absurd hd (not_lt.mpr hval)⟩
    · intro _
      exact hpos
    · intro hb
      linarith [deadband_pos]
    · intro _
      rw [abs_of_pos hpos]
      exact hrange

/-- The value of a wheel is drivable exactly when its trim fits. -/
theorem drivable_wheel_iff (hmin : 0 < p.minPwm) (hmax : p.minPwm ≤ p.maxPwm)
    (htrim : 0 < trim) (val : ℚ) :
    Drivable p val (wheel p trim val) ↔ TrimFits p trim val := by
  rcases speed_ranges val with h | h | h
  · have hback := drivable_forward_iff hmin hmax htrim (show deadband ≤ -val by linarith)
    rw [wheel_neg, trimFits_neg] at hback
    rw [← hback]
    constructor
    · exact Drivable.neg
    · intro hd
      have hneg := hd.neg
      rwa [neg_neg, neg_neg] at hneg
  · have hwheel : wheel p trim val = 0 := by
      rw [wheel, pwm, if_pos h, trimmed, Int.cast_zero, f64_zero, zero_mul, f64_zero,
        truncate_zero]
    have hlow := abs_lt.mp h
    rw [hwheel]
    constructor
    · intro _ hval
      exact absurd h (not_lt.mpr hval)
    · intro _
      constructor
      · exact ⟨fun _ ↦ h, fun _ ↦ rfl⟩
      · intro hf
        linarith [hlow.2]
      · intro hb
        linarith [hlow.1]
      · intro hval
        exact absurd h (not_lt.mpr hval)
  · exact drivable_forward_iff hmin hmax htrim h

theorem mapToPwm_fin (hmin : 0 < p.minPwm) (hmax : p.minPwm ≤ p.maxPwm)
    (hrange : p.maxPwm < 2 ^ 63) (hval : |val| ≤ 2 ^ 101) :
    mapToPwm p (.fin val) = .ok (pwm p val) := by
  have hmin' : |(p.minPwm : ℚ)| ≤ 2 ^ 63 := by
    rw [abs_of_pos (Int.cast_pos.mpr hmin)]
    exact_mod_cast hmax.trans hrange.le
  have hspan : |(p.maxPwm - p.minPwm : ℚ)| ≤ 2 ^ 63 := by
    rw [← Int.cast_sub, ← Int.cast_abs, abs_of_nonneg (sub_nonneg.mpr hmax)]
    exact_mod_cast (show p.maxPwm - p.minPwm ≤ 2 ^ 63 by omega)
  obtain ⟨hminDouble, hminLe⟩ := ExtRat.double_of_le (by decide) hmin'
  obtain ⟨hspanDouble, hspanLe⟩ := ExtRat.double_of_le (by decide) hspan
  have hproduct : |(|val| * f64 (p.maxPwm - p.minPwm))| ≤ 2 ^ 164 := by
    rw [abs_mul, abs_abs, show (2 : ℚ) ^ 164 = 2 ^ 101 * 2 ^ 63 by rw [← pow_add]]
    exact mul_le_mul hval hspanLe (abs_nonneg _) (by positivity)
  obtain ⟨hproductDouble, hproductLe⟩ := ExtRat.double_of_le (by decide) hproduct
  have hsum : |f64 p.minPwm + f64 (|val| * f64 (p.maxPwm - p.minPwm))| ≤ 2 ^ 165 := by
    have hadd := abs_add_le (f64 p.minPwm) (f64 (|val| * f64 (p.maxPwm - p.minPwm)))
    linarith [show (2 : ℚ) ^ 63 + 2 ^ 164 ≤ 2 ^ 165 by norm_num]
  obtain ⟨hsumDouble, -⟩ := ExtRat.double_of_le (by decide) hsum
  unfold mapToPwm pwm
  rw [ExtRat.abs_fin, ExtRat.lt_fin]
  simp only [decide_eq_true_eq, hspanDouble, ExtRat.fin_mul, hproductDouble, hminDouble,
    ExtRat.fin_add, hsumDouble, ExtRat.toInt_fin, ExtRat.lt_fin]
  split
  · rfl
  · rfl

theorem abs_pwm_le (hmin : 0 < p.minPwm) (hmax : p.minPwm ≤ p.maxPwm) (val : ℚ) :
    |pwm p val| ≤ p.maxPwm := by
  have hnonneg := magnitude_nonneg hmin hmax val
  have hle : magnitude p val ≤ p.maxPwm := min_le_right _ _
  unfold pwm
  rw [abs_le]
  split_ifs <;> omega

theorem applyTrim_of_le {n : ℤ} (hn : |n| ≤ 2 ^ 63) (htrim : |trim| ≤ 2 ^ 100) :
    applyTrim trim n = .ok (truncate (trimmed trim n)) := by
  have hn' : |(n : ℚ)| ≤ 2 ^ 63 := by exact_mod_cast hn
  obtain ⟨hdouble, hle⟩ := ExtRat.double_of_le (by decide) hn'
  have hproduct : |f64 n * trim| ≤ 2 ^ 163 := by
    rw [abs_mul, show (2 : ℚ) ^ 163 = 2 ^ 63 * 2 ^ 100 by rw [← pow_add]]
    exact mul_le_mul hle htrim (abs_nonneg _) (by positivity)
  rw [applyTrim, hdouble, ExtRat.fin_mul, (ExtRat.double_of_le (by decide) hproduct).1,
    ExtRat.toInt_fin, trimmed]

theorem exists_speeds {msg : Twist ℚ} (hlinear : |msg.linearX| ≤ 2 ^ 100)
    (hturn : |msg.angularZ * p.wheelSeparation| ≤ 2 ^ 100) :
    ∃ left right, leftSpeed p msg.toFloat = .fin left ∧ |left| ≤ 2 ^ 101 ∧
      rightSpeed p msg.toFloat = .fin right ∧ |right| ≤ 2 ^ 101 := by
  obtain ⟨hdouble, hle⟩ := ExtRat.double_of_le (by decide) hturn
  have hhalf : |f64 (msg.angularZ * p.wheelSeparation) * (1 / 2)| ≤ 2 ^ 100 := by
    rw [abs_mul, abs_of_pos (show (0 : ℚ) < 1 / 2 by norm_num)]
    linarith [abs_nonneg (f64 (msg.angularZ * p.wheelSeparation))]
  obtain ⟨hhalfDouble, hhalfLe⟩ := ExtRat.double_of_le (by decide) hhalf
  have hhalfTurn : halfTurn p msg.toFloat =
      .fin (f64 (f64 (msg.angularZ * p.wheelSeparation) * (1 / 2))) := by
    rw [halfTurn, Twist.toFloat, ExtRat.fin_mul, hdouble, ExtRat.fin_mul, hhalfDouble]
  generalize f64 (f64 (msg.angularZ * p.wheelSeparation) * (1 / 2)) = turn at *
  have hleft : |msg.linearX - turn| ≤ 2 ^ 101 := by
    linarith [abs_sub msg.linearX turn]
  have hright : |msg.linearX + turn| ≤ 2 ^ 101 := by
    linarith [abs_add_le msg.linearX turn]
  obtain ⟨hleftDouble, hleftLe⟩ := ExtRat.double_of_le (by decide) hleft
  obtain ⟨hrightDouble, hrightLe⟩ := ExtRat.double_of_le (by decide) hright
  refine ⟨_, _, ?_, hleftLe, ?_, hrightLe⟩
  · rw [leftSpeed, hhalfTurn, Twist.toFloat, ExtRat.fin_sub, hleftDouble]
  · rw [rightSpeed, hhalfTurn, Twist.toFloat, ExtRat.fin_add, hrightDouble]

/-- A packet is built from every twist of ordinary size. -/
theorem exists_packet (hmin : 0 < p.minPwm) (hmax : p.minPwm ≤ p.maxPwm)
    (hrange : p.maxPwm < 2 ^ 63) (hl : |p.leftTrim| ≤ 2 ^ 100) (hr : |p.rightTrim| ≤ 2 ^ 100)
    {msg : Twist ℚ} (hlinear : |msg.linearX| ≤ 2 ^ 100)
    (hturn : |msg.angularZ * p.wheelSeparation| ≤ 2 ^ 100) :
    ∃ t, listenerPacket p msg.toFloat = .ok t := by
  obtain ⟨left, right, hleft, hleftLe, hright, hrightLe⟩ := exists_speeds hlinear hturn
  have hlTrim := applyTrim_of_le ((abs_pwm_le hmin hmax left).trans hrange.le) hl
  have hrTrim := applyTrim_of_le ((abs_pwm_le hmin hmax right).trans hrange.le) hr
  refine ⟨packet (wheel p p.leftTrim left) (wheel p p.rightTrim right), ?_⟩
  rw [listenerPacket, hleft, hright, mapToPwm_fin hmin hmax hrange hleftLe,
    mapToPwm_fin hmin hmax hrange hrightLe]
  change (do
    let lPwm ← applyTrim p.leftTrim (pwm p left)
    let rPwm ← applyTrim p.rightTrim (pwm p right)
    Except.ok (packet lPwm rPwm)) = _
  rw [hlTrim, hrTrim]
  rfl

theorem trimmed_one {n : ℕ} (h : n < 2 ^ 53) : trimmed 1 n = n := by
  have hexact : f64 n = n := roundTo_natCast h
  rw [trimmed, Int.cast_natCast, mul_one, hexact, hexact]

theorem trimFits_one (hmin : 0 < p.minPwm) (hmax : p.minPwm ≤ p.maxPwm)
    (hrange : p.maxPwm < 2 ^ 53) (val : ℚ) : TrimFits p 1 val := by
  have hexact : ∀ n : ℤ, 0 ≤ n → n < 2 ^ 53 → trimmed 1 n = n := by
    intro n hn hlt
    lift n to ℕ using hn
    exact trimmed_one (by omega)
  intro _
  constructor
  · have hleast : (least 1 p.minPwm : ℤ) ≤ p.minPwm := by
      rw [least_le_iff one_pos hmin.le, hexact _ hmin.le (by omega)]
    have hlow : (p.minPwm : ℚ) ≤ scaled p val := by
      have hself := hexact _ hmin.le (by omega)
      rw [trimmed, mul_one] at hself
      exact hself.symm.trans_le (le_scaled hmax val)
    have hcast : (least 1 p.minPwm : ℚ) ≤ p.minPwm := by exact_mod_cast hleast
    exact le_min (hcast.trans hlow) (hcast.trans (Int.cast_le.mpr hmax))
  · have hleast : p.maxPwm < (least 1 (p.maxPwm + 1) : ℤ) := by
      rw [← not_le, least_le_iff one_pos (by omega), hexact _ (by omega) hrange, Int.cast_le]
      omega
    have hcast : (p.maxPwm : ℚ) < least 1 (p.maxPwm + 1) := by exact_mod_cast hleast
    exact (min_le_right _ _).trans_lt hcast

/-- **When a packet is drivable.** For positive trims and a range that is not empty, both values
of a packet are drivable and go the way of their wheels, if and only if both trims fit the speeds
of their wheels. -/
theorem drivable_iff (p : Params) (hmin : 0 < p.minPwm) (hmax : p.minPwm ≤ p.maxPwm)
    (hl : 0 < p.leftTrim) (hr : 0 < p.rightTrim) (msg : Twist ExtRat) (t : Text)
    (h : listenerPacket p msg = .ok t) :
    ∃ left right lPwm rPwm, leftSpeed p msg = .fin left ∧ rightSpeed p msg = .fin right ∧
      t = packet lPwm rPwm ∧
      (Drivable p left lPwm ∧ Drivable p right rPwm ↔
        TrimFits p p.leftTrim left ∧ TrimFits p p.rightTrim right) := by
  obtain ⟨left, right, hleft, hright, ht⟩ := listenerPacket_ok h
  refine ⟨left, right, _, _, hleft, hright, ht, ?_⟩
  apply and_congr
  · exact drivable_wheel_iff hmin hmax hl left
  · exact drivable_wheel_iff hmin hmax hr right

/-- The shipped parameters, as doubles. -/
def shipped : Params := { Params.default with wheelSeparation := f64 (135 / 1000) }

theorem drivable_iff_shipped :
    listenerPacket shipped (Twist.toFloat ⟨1 / 2, 1⟩) = .ok (packet 223 231) ∧
    ∃ left right, Drivable shipped left 223 ∧ Drivable shipped right 231 := by
  have hpacket : listenerPacket shipped (Twist.toFloat ⟨1 / 2, 1⟩) = .ok (packet 223 231) := by
    decide +kernel
  obtain ⟨left, right, lPwm, rPwm, -, -, ht, hiff⟩ := drivable_iff shipped (by decide)
    (by decide) (by decide +kernel) (by decide +kernel) _ _ hpacket
  obtain ⟨rfl, rfl⟩ := packet_inj ht
  refine ⟨hpacket, left, right, ?_⟩
  apply hiff.mpr
  constructor
  · exact trimFits_one (by decide) (by decide) (by decide) _
  · exact trimFits_one (by decide) (by decide) (by decide) _

/-- The shipped parameters with another left trim. -/
def shippedWith (leftTrim : ℚ) : Params := { shipped with leftTrim := leftTrim }

private theorem not_drivable {n : ℤ} (hval : deadband ≤ |val|)
    (hn : |n| < p.minPwm ∨ p.maxPwm < |n|) : ¬ Drivable p val n := by
  intro h
  have hrange := h.range hval
  omega

/-- A left trim of 1.1 sends 280 at full speed and 256 at 0.6 of it, one of 0.9 sends 184 at a
tenth of it. -/
theorem trimmed_out_of_range :
    (listenerPacket (shippedWith (f64 (11 / 10))) (Twist.toFloat ⟨1, 0⟩) =
        .ok (packet 280 255) ∧
      leftSpeed (shippedWith (f64 (11 / 10))) (Twist.toFloat ⟨1, 0⟩) = .fin 1 ∧
      ¬ Drivable (shippedWith (f64 (11 / 10))) 1 280) ∧
    (listenerPacket (shippedWith (f64 (11 / 10))) (Twist.toFloat ⟨f64 (6 / 10), 0⟩) =
        .ok (packet 256 233) ∧
      leftSpeed (shippedWith (f64 (11 / 10))) (Twist.toFloat ⟨f64 (6 / 10), 0⟩) =
        .fin (f64 (6 / 10)) ∧
      ¬ Drivable (shippedWith (f64 (11 / 10))) (f64 (6 / 10)) 256) ∧
    (listenerPacket (shippedWith (f64 (9 / 10))) (Twist.toFloat ⟨f64 (1 / 10), 0⟩) =
        .ok (packet 184 205) ∧
      leftSpeed (shippedWith (f64 (9 / 10))) (Twist.toFloat ⟨f64 (1 / 10), 0⟩) =
        .fin (f64 (1 / 10)) ∧
      ¬ Drivable (shippedWith (f64 (9 / 10))) (f64 (1 / 10)) 184) := by
  refine ⟨⟨?_, ?_, ?_⟩, ⟨?_, ?_, ?_⟩, ?_, ?_, ?_⟩
  · decide +kernel
  · decide +kernel
  · exact not_drivable (by decide +kernel) (by decide)
  · decide +kernel
  · decide +kernel
  · exact not_drivable (by decide +kernel) (by decide)
  · decide +kernel
  · decide +kernel
  · exact not_drivable (by decide +kernel) (by decide)

end MonitoringRobot.Relay.Doubles
