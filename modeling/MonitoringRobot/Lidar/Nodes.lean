import Mathlib.Tactic.Ring
import MonitoringRobot.Base.Bytes
import MonitoringRobot.Base.Framing

/-!
# Measurement nodes of a standard scan

`UnpackerHandler_NormalNode`
(`edge_packages/src/rplidar_ros/sdk/src/dataunpacker/unpacker/handler_normalnode.cpp:87-157`)
collects nodes of five bytes and casts each to the format of the high-quality nodes; the
driver casts them back for its older interface
(`edge_packages/src/rplidar_ros/sdk/src/sl_lidar_driver.cpp:75-89`). Timestamps are left out.
-/

namespace MonitoringRobot.Lidar
open MonitoringRobot.Base MonitoringRobot.Base.Machine

/-- `sl_lidar_response_measurement_node_hq_t`: fields of 16, 32, 8 and 8 bits. -/
structure HqNode where
  angleZQ14 : Nat
  distMmQ2 : Nat
  quality : Nat
  flag : Nat
deriving DecidableEq, Repr

/-- What a handler tells the engine. -/
inductive Decoded where
  | hqNode (node : HqNode)
  | newScanReset
  | decodingError (errorType : Nat) (ansType : UInt8) (payload : List UInt8)
deriving DecidableEq, Repr

/-- `ERR_EVENT_ON_EXP_ENCODER_RESET`. -/
def errEventOnExpEncoderReset : Nat := 0x8001

/-- `ERR_EVENT_ON_EXP_CHECKSUM_ERR`. -/
def errEventOnExpChecksumErr : Nat := 0x8002

/-- The field of `len` bytes at an offset of a packed structure. -/
def field (bytes : List UInt8) (offset len : Nat) : Nat := ofLE ((bytes.drop offset).take len)

/-- `sl_lidar_response_measurement_node_t`: fields of 8, 16 and 16 bits. -/
structure MeasurementNode where
  syncQuality : Nat
  angleQ6Checkbit : Nat
  distanceQ2 : Nat
deriving DecidableEq, Repr

namespace MeasurementNode

/-- The structure over five bytes. -/
def ofBytes (bytes : List UInt8) : MeasurementNode where
  syncQuality := field bytes 0 1
  angleQ6Checkbit := field bytes 1 2
  distanceQ2 := field bytes 3 2

/-- `RPLIDAR_RESP_MEASUREMENT_ANGLE_SHIFT` takes the check bit off. -/
def angleQ6 (n : MeasurementNode) : Nat := n.angleQ6Checkbit >>> 1

/-- `convert` to the high-quality format; the angle is cut to 16 bits. -/
def toHq (n : MeasurementNode) : HqNode where
  angleZQ14 := (n.angleQ6 <<< 8) / 90 % 2 ^ 16
  distMmQ2 := n.distanceQ2
  quality := (n.syncQuality >>> 2) <<< 2
  flag := n.syncQuality &&& 1

end MeasurementNode

/-- `convert` from the high-quality format. -/
def HqNode.toMeasurement (n : HqNode) : MeasurementNode where
  syncQuality := (n.flag &&& 1) ||| ((n.quality >>> 2) <<< 2)
  angleQ6Checkbit := (1 ||| (((n.angleZQ14 * 90) >>> 8) <<< 1)) % 2 ^ 16
  distanceQ2 := if n.distMmQ2 > 2 ^ 16 - 1 then 0 else n.distMmQ2

namespace NormalNode

/-- `RPLIDAR_ANS_TYPE_MEASUREMENT`. -/
def ansType : UInt8 := 0x81

/-- Five bytes; the first holds the sync bit and its inverse, the second the check bit. -/
def framing : Framing where
  size := 5
  check
    | 0, b => ((b >>> 1) ^^^ b) &&& 1 ≠ 0
    | 1, b => b &&& 1 ≠ 0
    | _, _ => true

/-- The handler's buffer. -/
abbrev Handler := Collector Unit

/-- `reset`. -/
def reset (_ : Handler) : Handler := { cached := [], state := () }

/-- One pass of the loop of `onData`. -/
def onByte : Handler → UInt8 → Handler × List Decoded :=
  framing.onByte id fun s bytes ↦ (s, [.hqNode (MeasurementNode.ofBytes bytes).toHq])

/-- `onData`. -/
def onData (h : Handler) (data : List UInt8) : Handler × List Decoded := emit onByte h data

end NormalNode

/-! ### What the device sends -/

/-- One sample of the device, with the widths of its fields. -/
structure Sample where
  sync : Bool
  quality : Fin (2 ^ 6)
  angleQ6 : Fin (2 ^ 15)
  distanceQ2 : Fin (2 ^ 16)

namespace Sample

/-- The node of a sample. -/
def node (s : Sample) : MeasurementNode where
  syncQuality := (if s.sync then 1 else 2) + 4 * s.quality.val
  angleQ6Checkbit := 1 + 2 * s.angleQ6.val
  distanceQ2 := s.distanceQ2.val

/-- The five bytes of a sample. -/
def bytes (s : Sample) : List UInt8 :=
  toLE 1 s.node.syncQuality ++ (toLE 2 s.node.angleQ6Checkbit ++ toLE 2 s.node.distanceQ2)

/-- The node the driver makes of a sample. -/
def hqNode (s : Sample) : HqNode where
  angleZQ14 := s.angleQ6.val * 256 / 90 % 2 ^ 16
  distMmQ2 := s.distanceQ2.val
  quality := 4 * s.quality.val
  flag := if s.sync then 1 else 0

theorem node_syncQuality (s : Sample) :
    s.node.syncQuality = (if s.sync then 1 else 2) + 4 * s.quality.val := rfl

theorem node_angle (s : Sample) : s.node.angleQ6Checkbit = 1 + 2 * s.angleQ6.val := rfl

/-- The first byte of a sample has its sync bit and the inverse. -/
theorem check_first (s : Sample) :
    NormalNode.framing.check 0 (UInt8.ofNat s.node.syncQuality) = true := by
  have hall : ∀ (sync : Bool) (q : Fin (2 ^ 6)), NormalNode.framing.check 0
      (UInt8.ofNat ((if sync then 1 else 2) + 4 * q.val)) = true := by decide
  exact hall s.sync s.quality

theorem check_second (s : Sample) :
    NormalNode.framing.check 1 (UInt8.ofNat s.node.angleQ6Checkbit) = true := by
  have hbit : UInt8.ofNat s.node.angleQ6Checkbit &&& 1 ≠ 0 := by
    intro h
    have hnat := congrArg UInt8.toNat h
    rw [UInt8.toNat_and, UInt8.toNat_ofNat', show UInt8.toNat 1 = 1 from rfl,
      show UInt8.toNat 0 = 0 from rfl, Nat.and_one_is_mod, node_angle] at hnat
    omega
  exact decide_eq_true hbit

theorem frame_bytes (s : Sample) : NormalNode.framing.Frame s.bytes := by
  constructor
  · simp [bytes, NormalNode.framing]
  · exact Nat.succ_pos 4
  · intro i h
    match i with
    | 0 => exact s.check_first
    | 1 => exact s.check_second
    | k + 2 => rfl

theorem ofBytes_bytes (s : Sample) : MeasurementNode.ofBytes s.bytes = s.node := by
  have hq := s.quality.isLt
  have ha := s.angleQ6.isLt
  have hd := s.distanceQ2.isLt
  have hfirst : s.node.syncQuality < 256 ^ 1 := by
    rw [node_syncQuality]
    split <;> omega
  have hsecond : s.node.angleQ6Checkbit < 256 ^ 2 := by
    rw [node_angle]
    omega
  have hthird : s.node.distanceQ2 < 256 ^ 2 := hd
  have h0 : field s.bytes 0 1 = s.node.syncQuality := ofLE_toLE_of_lt hfirst
  have h1 : field s.bytes 1 2 = s.node.angleQ6Checkbit := ofLE_toLE_of_lt hsecond
  have h3 : field s.bytes 3 2 = s.node.distanceQ2 := ofLE_toLE_of_lt hthird
  rw [MeasurementNode.ofBytes, h0, h1, h3]

theorem toHq_node (s : Sample) : s.node.toHq = s.hqNode := by
  have hangle : s.node.angleQ6 = s.angleQ6.val := by
    rw [MeasurementNode.angleQ6, node_angle, Nat.shiftRight_eq_div_pow]
    omega
  have hquality : (s.node.syncQuality >>> 2) <<< 2 = 4 * s.quality.val := by
    rw [node_syncQuality, Nat.shiftRight_eq_div_pow, Nat.shiftLeft_eq]
    split <;> omega
  have hflag : s.node.syncQuality &&& 1 = if s.sync then 1 else 0 := by
    rw [node_syncQuality, Nat.and_one_is_mod]
    cases s.sync <;> simp only [if_true, Bool.false_eq_true, if_false] <;> omega
  rw [MeasurementNode.toHq, hangle, hquality, hflag, hqNode, Nat.shiftLeft_eq]
  rfl

/-- A handler between two nodes decodes a stream of samples exactly. -/
theorem decode (samples : List Sample) :
    emit NormalNode.onByte { cached := [], state := () } (samples.flatMap bytes) =
      ({ cached := [], state := () }, samples.map fun s ↦ .hqNode s.hqNode) := by
  have hframes : ∀ frame ∈ samples.map bytes, NormalNode.framing.Frame frame := by
    intro frame hf
    obtain ⟨s, -, rfl⟩ := List.mem_map.mp hf
    exact s.frame_bytes
  rw [List.flatMap_def, NormalNode.onByte, Framing.emit_frames hframes, emit_each,
    List.flatMap_map, List.map_eq_flatMap]
  simp only [ofBytes_bytes, toHq_node]

end Sample

/-! ### The angle in the two formats -/

theorem or_shiftLeft {a k : Nat} (h : a < 2 ^ k) (b : Nat) :
    a ||| b <<< k = b * 2 ^ k + a := by
  rw [Nat.shiftLeft_eq, Nat.or_comm, Nat.mul_comm, ← Nat.two_pow_add_eq_or_of_lt h]

/-- The angle that comes back from the high-quality format. -/
theorem angleQ6_back (n : MeasurementNode) :
    n.toHq.toMeasurement.angleQ6 = n.angleQ6 * 256 / 90 % 2 ^ 16 * 90 / 256 := by
  have hz : n.toHq.angleZQ14 = n.angleQ6 * 256 / 90 % 2 ^ 16 := by
    rw [MeasurementNode.toHq, Nat.shiftLeft_eq]
  have hlt : n.angleQ6 * 256 / 90 % 2 ^ 16 < 2 ^ 16 := Nat.mod_lt _ (by omega)
  change ((1 ||| (n.toHq.angleZQ14 * 90) >>> 8 <<< 1) % 2 ^ 16) >>> 1 = _
  rw [or_shiftLeft (a := 1) (k := 1) (by omega), hz, Nat.shiftRight_eq_div_pow,
    Nat.shiftRight_eq_div_pow]
  omega

/-- The sync bit and the quality that come back from the high-quality format. -/
theorem syncQuality_back (n : MeasurementNode) :
    n.toHq.toMeasurement.syncQuality = n.syncQuality / 4 * 4 + n.syncQuality % 2 := by
  change (n.syncQuality &&& 1 &&& 1) ||| (n.syncQuality >>> 2 <<< 2) >>> 2 <<< 2 = _
  rw [Nat.and_one_is_mod, Nat.and_one_is_mod, or_shiftLeft (by omega),
    Nat.shiftRight_eq_div_pow, Nat.shiftRight_eq_div_pow, Nat.shiftLeft_eq]
  omega

theorem cast_lt {a : Nat} (h : a < 360 * 64) : a * 256 / 90 < 2 ^ 16 := by
  omega

/-- Casting an angle below one turn and back rounds down twice. -/
theorem cast_back (a : Nat) : a * 256 / 90 * 90 / 256 = if 45 ∣ a then a else a - 1 := by
  have hdiv : 45 * (a * 256 / 90) + 128 * a % 45 = 128 * a := by omega
  split
  · next hdvd =>
    have hzero : 128 * a % 45 = 0 := Nat.mod_eq_zero_of_dvd (hdvd.mul_left 128)
    omega
  · next hdvd =>
    have hne : 128 * a % 45 ≠ 0 := by
      intro hzero
      exact hdvd (by omega)
    have hlt : 128 * a % 45 < 45 := Nat.mod_lt _ (by omega)
    generalize 128 * a % 45 = r at *
    generalize a * 256 / 90 = q at *
    omega

/-- An angle of a turn or more wraps, and comes back lower. -/
theorem wrapped_back {a : Nat} (h : 360 * 64 ≤ a) (hlt : a < 2 ^ 15) :
    a * 256 / 90 % 2 ^ 16 * 90 / 256 < a := by
  omega

end MonitoringRobot.Lidar
