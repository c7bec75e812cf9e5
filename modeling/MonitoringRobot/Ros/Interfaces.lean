import MonitoringRobot.Base.BoundedQueue
import MonitoringRobot.Base.Numeric

/-!
# The interfaces of the nodes

The `cmd_vel` topic the fog node and the edge node share, with publisher
(`fog_packages/src/rssi/rssi/human_follower.py:76`) and subscriber
(`edge_packages/src/rssi/rssi/velocity_relay.py:39-40`) both asking for depth 10, and the
answer of the `SetBool` services.
-/

namespace MonitoringRobot.Ros
open MonitoringRobot.Base

/-- `geometry_msgs/Twist` in the two components the nodes use. -/
structure Twist (α : Type) where
  linearX : α
  angularZ : α
  deriving DecidableEq

namespace Twist

/-- `Twist()`: all components zero. -/
def zero : Twist ℚ := ⟨0, 0⟩

/-- The opposite motion. -/
def reverse (m : Twist ℚ) : Twist ℚ := ⟨-m.linearX, -m.angularZ⟩

/-- The same drive with the opposite turn. -/
def mirror (m : Twist ℚ) : Twist ℚ := ⟨m.linearX, -m.angularZ⟩

/-- A twist in exact numbers as the floats it is sent as. -/
def toFloat (m : Twist ℚ) : Twist ExtRat := ⟨.fin m.linearX, .fin m.angularZ⟩

/-- Both components are finite floats. -/
def IsFinite (m : Twist ExtRat) : Prop := m.linearX.IsFinite ∧ m.angularZ.IsFinite

@[simp] theorem isFinite_toFloat (m : Twist ℚ) : m.toFloat.IsFinite := ⟨trivial, trivial⟩

/-- The finite twists are exactly those in exact numbers. -/
theorem isFinite_iff {m : Twist ExtRat} : m.IsFinite ↔ ∃ t : Twist ℚ, m = t.toFloat := by
  constructor
  · rintro ⟨hv, hw⟩
    obtain ⟨v, hv⟩ := ExtRat.isFinite_iff.mp hv
    obtain ⟨w, hw⟩ := ExtRat.isFinite_iff.mp hw
    refine ⟨⟨v, w⟩, ?_⟩
    cases m
    simp_all [toFloat]
  · rintro ⟨t, rfl⟩
    exact isFinite_toFloat t

end Twist

/-- The history of `cmd_vel`: the last ten messages not yet taken by the subscriber. -/
abbrev CmdVelQueue := BoundedQueue (Twist ℚ) 10

/-- `SetBool.Response`. -/
structure SetBoolResponse where
  success : Bool
  message : String

end MonitoringRobot.Ros
