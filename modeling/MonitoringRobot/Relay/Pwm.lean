import MonitoringRobot.Base.Decimal
import MonitoringRobot.Ros.Interfaces

/-!
# From a Twist to a motor packet

`CmdVelToSerial.map_to_pwm` and the arithmetic half of `listener_callback`
(`edge_packages/src/rssi/rssi/velocity_relay.py:55-85`; the copy under `fog_packages` is the
same file). Parameters are exact numbers; a velocity is any float, and the results are not
rounded (`Relay.Doubles` rounds them). On finite twists the packet has the closed form
`finitePacket`, and only there does one exist.
-/

namespace MonitoringRobot.Relay
open MonitoringRobot.Base MonitoringRobot.Ros

/-- The declared parameters the callbacks read; `velocity_relay.py:13-21`. -/
structure Params where
  wheelSeparation : ℚ
  minPwm : ℤ
  maxPwm : ℤ
  leftTrim : ℚ
  rightTrim : ℚ
  timeoutDuration : ℚ

/-- The declared default values. -/
def Params.default : Params where
  wheelSeparation := 135 / 1000
  minPwm := 200
  maxPwm := 255
  leftTrim := 1
  rightTrim := 1
  timeoutDuration := 1 / 10

/-- `map_to_pwm`; `velocity_relay.py:55-65`. -/
def mapToPwm (p : Params) (val : ExtRat) : Except PyError ℤ :=
  if val.abs.lt (.fin (1 / 100)) then .ok 0
  else do
    let pwm ← (.fin p.minPwm + val.abs * .fin (p.maxPwm - p.minPwm) : ExtRat).toInt
    let pwm := min pwm p.maxPwm
    .ok (if ExtRat.lt (.fin 0) val then pwm else -pwm)

/-- `left_speed`; `velocity_relay.py:73`. Division by two is a product with one half. -/
def leftSpeed (p : Params) (msg : Twist ExtRat) : ExtRat :=
  msg.linearX - msg.angularZ * .fin p.wheelSeparation * .fin (1 / 2)

/-- `right_speed`; `velocity_relay.py:74`. -/
def rightSpeed (p : Params) (msg : Twist ExtRat) : ExtRat :=
  msg.linearX + msg.angularZ * .fin p.wheelSeparation * .fin (1 / 2)

/-- `f"{l_pwm},{r_pwm}\n"`; `velocity_relay.py:85`. -/
def packet (lPwm rPwm : ℤ) : Text := strInt lPwm ++ ',' :: (strInt rPwm ++ ['\n'])

/-- The watchdog's `b"0,0\n"`; `velocity_relay.py:51`. -/
def stopPacket : Text := ['0', ',', '0', '\n']

/-- The packet `listener_callback` builds before its `try`; `velocity_relay.py:68-85`. -/
def listenerPacket (p : Params) (msg : Twist ExtRat) : Except PyError Text := do
  let lPwm ← mapToPwm p (leftSpeed p msg)
  let rPwm ← mapToPwm p (rightSpeed p msg)
  let lPwm := truncate (lPwm * p.leftTrim)
  let rPwm := truncate (rPwm * p.rightTrim)
  .ok (packet lPwm rPwm)

/-- `map_to_pwm` on a finite speed. -/
def pwm (p : Params) (val : ℚ) : ℤ :=
  if |val| < 1 / 100 then 0
  else
    let pwm := min (truncate (p.minPwm + |val| * (p.maxPwm - p.minPwm))) p.maxPwm
    if 0 < val then pwm else -pwm

/-- The left value sent for a finite twist. -/
def leftPwm (p : Params) (msg : Twist ℚ) : ℤ :=
  truncate (pwm p (msg.linearX - msg.angularZ * p.wheelSeparation * (1 / 2)) * p.leftTrim)

/-- The right value sent for a finite twist. -/
def rightPwm (p : Params) (msg : Twist ℚ) : ℤ :=
  truncate (pwm p (msg.linearX + msg.angularZ * p.wheelSeparation * (1 / 2)) * p.rightTrim)

/-- The packet of a finite twist. -/
def finitePacket (p : Params) (msg : Twist ℚ) : Text := packet (leftPwm p msg) (rightPwm p msg)

/-- On a finite speed `map_to_pwm` returns its closed form. -/
theorem mapToPwm_fin (p : Params) (val : ℚ) : mapToPwm p (.fin val) = .ok (pwm p val) := by
  unfold mapToPwm pwm
  simp only [ExtRat.abs_fin, ExtRat.lt_fin, decide_eq_true_eq]
  split
  · rfl
  · simp only [ExtRat.fin_mul, ExtRat.fin_add, ExtRat.toInt_fin]
    rfl

/-- `map_to_pwm` returns exactly on the finite speeds: below the deadband no `int()` is
reached, and above it `int()` raises on an infinity or NaN. -/
theorem mapToPwm_ok_iff (p : Params) (val : ExtRat) :
    (∃ n, mapToPwm p val = .ok n) ↔ val.IsFinite := by
  constructor
  · rintro ⟨n, hn⟩
    unfold mapToPwm at hn
    split at hn
    · next hlt => exact ExtRat.isFinite_of_abs_lt hlt
    · cases hi : (.fin p.minPwm + val.abs * .fin (p.maxPwm - p.minPwm) : ExtRat).toInt with
      | error e =>
        rw [hi] at hn
        cases hn
      | ok m =>
        have hf := ExtRat.toInt_ok_iff.mp ⟨m, hi⟩
        simpa using hf
  · intro hf
    obtain ⟨q, rfl⟩ := ExtRat.isFinite_iff.mp hf
    exact ⟨_, mapToPwm_fin p q⟩

/-- On a finite twist the callback builds the closed-form packet. -/
theorem listenerPacket_toFloat (p : Params) (msg : Twist ℚ) :
    listenerPacket p msg.toFloat = .ok (finitePacket p msg) := by
  simp only [listenerPacket, leftSpeed, rightSpeed, Twist.toFloat, ExtRat.fin_mul,
    ExtRat.fin_sub, ExtRat.fin_add, mapToPwm_fin]
  rfl

/-- A packet is built exactly for the finite twists: no wheel separation, not even zero,
turns a special velocity into two finite wheel speeds. -/
theorem listenerPacket_ok_iff (p : Params) (msg : Twist ExtRat) :
    (∃ t, listenerPacket p msg = .ok t) ↔ msg.IsFinite := by
  constructor
  · rintro ⟨t, ht⟩
    unfold listenerPacket at ht
    cases hl : mapToPwm p (leftSpeed p msg) with
    | error e =>
      rw [hl] at ht
      cases ht
    | ok l =>
      have hf := (mapToPwm_ok_iff p _).mp ⟨l, hl⟩
      simpa [leftSpeed, Twist.IsFinite] using hf
  · intro hf
    obtain ⟨m, rfl⟩ := Twist.isFinite_iff.mp hf
    exact ⟨_, listenerPacket_toFloat p m⟩

private theorem comma_not_mem_strInt (n : ℤ) : ∀ c ∈ strInt n, c ≠ ',' := by
  rintro c hc rfl
  rcases mem_strInt hc with h | h
  · exact absurd h (by decide)
  · exact absurd h (by decide)

private theorem takeWhile_packet (l r : ℤ) :
    (packet l r).takeWhile (fun c ↦ decide (c ≠ ',')) = strInt l := by
  unfold packet
  rw [List.takeWhile_append_of_pos (fun c hc ↦ decide_eq_true (comma_not_mem_strInt l c hc))]
  simp

theorem packet_inj {l r l' r' : ℤ} (h : packet l r = packet l' r') : l = l' ∧ r = r' := by
  have hl : strInt l = strInt l' := by
    rw [← takeWhile_packet l r, h, takeWhile_packet]
  have hr : strInt r = strInt r' := by
    unfold packet at h
    rw [hl] at h
    have hcons := List.append_cancel_left h
    exact List.append_cancel_right (List.cons.inj hcons).2
  exact ⟨strInt_injective hl, strInt_injective hr⟩

theorem packet_zero : packet 0 0 = stopPacket := by decide

/-- A command packet reads `0,0` exactly when both values are zero. -/
theorem packet_eq_stopPacket {l r : ℤ} : packet l r = stopPacket ↔ l = 0 ∧ r = 0 := by
  constructor
  · intro h
    exact packet_inj (h.trans packet_zero.symm)
  · rintro ⟨rfl, rfl⟩
    exact packet_zero

theorem pwm_of_abs_lt {p : Params} {val : ℚ} (h : |val| < 1 / 100) : pwm p val = 0 := by
  simp only [pwm, if_pos h]

/-- Outside the deadband the value sent is at least `min_pwm` in magnitude, so that no other
speed is sent as zero. -/
theorem pwm_eq_zero {p : Params} (hmin : 0 < p.minPwm) (hmax : p.minPwm ≤ p.maxPwm) {val : ℚ} :
    pwm p val = 0 ↔ |val| < 1 / 100 := by
  constructor
  · intro h
    by_contra hv
    have hspan : (0 : ℚ) ≤ p.maxPwm - p.minPwm := sub_nonneg.mpr (Int.cast_le.mpr hmax)
    have hprod := mul_nonneg (abs_nonneg val) hspan
    have hle : p.minPwm ≤ truncate (p.minPwm + |val| * (p.maxPwm - p.minPwm)) :=
      le_truncate (by linarith)
    simp only [pwm, if_neg hv] at h
    split at h
    · omega
    · omega
  · exact pwm_of_abs_lt

/-- The zero twist is sent as the stop packet, whatever the parameters. -/
theorem finitePacket_zero (p : Params) : finitePacket p Twist.zero = stopPacket := by
  have hl : leftPwm p Twist.zero = 0 := by
    simp [leftPwm, Twist.zero, pwm_of_abs_lt]
  have hr : rightPwm p Twist.zero = 0 := by
    simp [rightPwm, Twist.zero, pwm_of_abs_lt]
  rw [finitePacket, hl, hr, packet_zero]

end MonitoringRobot.Relay
