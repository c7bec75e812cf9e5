import MonitoringRobot.Base.Crossings
import MonitoringRobot.Lidar.Nodes

/-!
# Capsules of an express scan

The capsuled scan modes send checksummed frames of many samples with one start angle
(`edge_packages/src/rplidar_ros/sdk/src/dataunpacker/unpacker/handler_capsules.cpp`). Their
handlers share `onData`: a frame whose checksum fits is unpacked together with the frame
before it, whose samples lie between the two start angles. The express and the ultra format
are unpacked here. Timestamps are left out.
-/

namespace MonitoringRobot.Lidar
open MonitoringRobot.Base MonitoringRobot.Base.Machine

/-- What a capsule handler keeps from frame to frame: the frame before, when
`_is_previous_capsuledataRdy`, and what its unpacking carries along. -/
structure CapsuleState (τ : Type) where
  previous : Option (List UInt8)
  carried : τ
deriving DecidableEq, Repr

/-- Forget the frame before. -/
def CapsuleState.forget {τ : Type} (s : CapsuleState τ) : CapsuleState τ :=
  { s with previous := none }

/-- What sets one capsule handler apart from another: its answer type, the size of a frame,
where the start angle lies, how the samples of a frame are unpacked before the next one, and
what `reset` does besides emptying the buffer. -/
structure CapsuleFormat (τ : Type) where
  ansType : UInt8
  size : Nat
  startAngleAt : Nat
  unpack : τ → List UInt8 → List UInt8 → τ × List HqNode
  onReset : CapsuleState τ → CapsuleState τ

namespace CapsuleFormat

variable {τ : Type}

/-- The two sync nibbles in front. -/
def framing (f : CapsuleFormat τ) : Framing where
  size := f.size
  check
    | 0, b => b >>> 4 = 0xA
    | 1, b => b >>> 4 = 0x5
    | _, _ => true

/-- The checksum in the low nibbles of the first two bytes. -/
def recvChecksum (frame : List UInt8) : UInt8 :=
  (frame.getD 0 0 &&& (0xF : UInt8)) ||| (frame.getD 1 0 <<< (4 : UInt8))

/-- The checksum over the bytes behind those two. -/
def checksum (frame : List UInt8) : UInt8 := xorAll (frame.drop 2)

/-- `start_angle_sync_q6`. -/
def startAngleSyncQ6 (f : CapsuleFormat τ) (frame : List UInt8) : Nat :=
  field frame f.startAngleAt 2

/-- A frame with the sync bit is the first of a measurement. -/
def onSyncBit (f : CapsuleFormat τ) (previous : Option (List UInt8)) (frame : List UInt8) :
    Option (List UInt8) × List Decoded :=
  if f.startAngleSyncQ6 frame &&& 0x8000 ≠ 0 then
    (none, (if previous.isSome then
        [.decodingError errEventOnExpEncoderReset f.ansType frame] else []) ++ [.newScanReset])
  else (previous, [])

/-- Unpack the frame before, if any, and keep this one. -/
def onScanNodeData (f : CapsuleFormat τ) (s : CapsuleState τ) (frame : List UInt8) :
    CapsuleState τ × List Decoded :=
  match s.previous with
  | none => ({ s with previous := some frame }, [])
  | some prev =>
    ({ previous := some frame, carried := (f.unpack s.carried prev frame).1 },
      (f.unpack s.carried prev frame).2.map .hqNode)

/-- The last byte of a frame is in place. -/
def onFrame (f : CapsuleFormat τ) (s : CapsuleState τ) (frame : List UInt8) :
    CapsuleState τ × List Decoded :=
  if recvChecksum frame = checksum frame then
    let started := f.onSyncBit s.previous frame
    let unpacked := f.onScanNodeData { s with previous := started.1 } frame
    (unpacked.1, started.2 ++ unpacked.2)
  else (s.forget, [.decodingError errEventOnExpChecksumErr f.ansType frame])

/-- The handler's buffer, and what it keeps. -/
abbrev Handler (τ : Type) := Collector (CapsuleState τ)

/-- One pass of the loop of `onData`: a failed sync nibble forgets the frame before. -/
def onByte (f : CapsuleFormat τ) : Handler τ → UInt8 → Handler τ × List Decoded :=
  f.framing.onByte CapsuleState.forget f.onFrame

/-- `onData`. -/
def onData (f : CapsuleFormat τ) (h : Handler τ) (data : List UInt8) : Handler τ × List Decoded :=
  emit f.onByte h data

/-- `reset`. -/
def reset (f : CapsuleFormat τ) (h : Handler τ) : Handler τ :=
  { cached := [], state := f.onReset h.state }

end CapsuleFormat

/-! ### The samples of a frame -/

/-- One turn in the fixed-point format of the running angle. -/
def turnQ16 : Int := 360 * 2 ^ 16

/-- The start angle of a frame. -/
def startAngleQ8 (startAngleSyncQ6 : Nat) : Int := ((startAngleSyncQ6 &&& 0x7FFF) <<< 2 : Nat)

/-- The start angle of a frame. -/
def startQ8 (frame : List UInt8) : Int := startAngleQ8 (field frame 2 2)

/-- The way from one start angle to the next. -/
def diffAngleQ8 (prev current : Int) : Int :=
  if prev > current then current - prev + 360 * 2 ^ 8 else current - prev

/-- Whether the running angle passes a whole turn in the next step. -/
def syncBit (rawQ16 incQ16 : Int) : Bool := (rawQ16 + incQ16).tmod turnQ16 < incQ16

/-- The sample at a running angle: its angle is moved back by an offset and into one turn, and
cut to 16 bits in the end. -/
def capsuleNode (rawQ16 incQ16 offsetQ16 : Int) (distQ2 : Int) : HqNode :=
  let angleQ6 := (rawQ16 - offsetQ16) >>> (10 : Nat)
  let above := if angleQ6 < 0 then angleQ6 + 360 * 2 ^ 6 else angleQ6
  let inTurn := if above ≥ 360 * 2 ^ 6 then above - 360 * 2 ^ 6 else above
  { angleZQ14 := ((inTurn * 2 ^ 8).tdiv 90 % 2 ^ 16).toNat
    distMmQ2 := (distQ2 % 2 ^ 32).toNat
    quality := if distQ2 ≠ 0 then 0x2F <<< 2 else 0
    flag := if syncBit rawQ16 incQ16 then 1 else 2 }

/-- The loop over the samples with the running angle. -/
def sampleLoop (sample : Nat → Int × Int) (incQ16 : Int) : Nat → Nat → Int → List HqNode
  | 0, _, _ => []
  | count + 1, k, rawQ16 =>
    capsuleNode rawQ16 incQ16 (sample k).1 (sample k).2 ::
      sampleLoop sample incQ16 count (k + 1) (rawQ16 + incQ16)

namespace Express

/-- Offset angle and distance of a sample: two in each cabin of five bytes. -/
def sample (frame : List UInt8) (k : Nat) : Int × Int :=
  let distanceAngle := field frame (4 + 5 * (k / 2) + 2 * (k % 2)) 2
  let offsetAngles := field frame (4 + 5 * (k / 2) + 4) 1
  let low := if k % 2 = 0 then offsetAngles &&& 0xF else offsetAngles >>> 4
  ((((low ||| ((distanceAngle &&& 0x3) <<< 4)) <<< 13 : Nat) : Int),
    ((distanceAngle &&& 0xFFFC : Nat) : Int))

/-- `_onScanNodeCapsuleData`: 32 samples. -/
def unpack (prev current : List UInt8) : List HqNode :=
  sampleLoop (sample prev) (diffAngleQ8 (startQ8 prev) (startQ8 current) * 2 ^ 3) 32 0
    (startQ8 prev * 2 ^ 8)

/-- `UnpackerHandler_CapsuleNode`. -/
def format : CapsuleFormat Unit where
  ansType := 0x82
  size := 84
  startAngleAt := 2
  unpack _ prev current := ((), unpack prev current)
  onReset := CapsuleState.forget

end Express

namespace Ultra

/-- The tables of `_varbitscale_decode`: base and level of the scaled value, and base of the
distance. -/
def varbitscaleTable : List (Nat × Nat × Nat) :=
  [(3328, 4, 2 ^ 14), (1792, 3, 2 ^ 12), (1280, 2, 2 ^ 11), (512, 1, 2 ^ 9), (0, 0, 0)]

/-- `_varbitscale_decode`: the distance and the scale level. -/
def varbitscaleDecode (scaled : Nat) : Nat × Nat :=
  match varbitscaleTable.find? fun entry ↦ entry.1 ≤ scaled with
  | some (scaledBase, scaleLevel, targetBase) =>
    (targetBase + (scaled - scaledBase) <<< scaleLevel, scaleLevel)
  | none => (0, 0)

/-- Ten bits as a signed number. -/
def signed10 (bits : Nat) : Int :=
  if bits % 2 ^ 10 < 2 ^ 9 then bits % 2 ^ 10 else bits % 2 ^ 10 - 2 ^ 10

/-- `combined_x3` of a cabin. -/
def combinedX3 (frame : List UInt8) (pos : Nat) : Nat := field frame (4 + 4 * pos) 4

/-- A predicted distance: the two extreme values stand for none. -/
def predicted (predict : Int) (scaleLevel : Nat) (base : Nat) : Int :=
  if predict = -512 ∨ predict = 511 then 0 else (predict * 2 ^ scaleLevel + base) * 2 ^ 2

/-- The three distances of a cabin, from its own major value and that of the cabin behind it. -/
def distQ2 (combined next : Nat) : Nat → Int
  | 0 => (varbitscaleDecode (combined &&& 0xFFF)).1 * 2 ^ 2
  | 1 =>
    let major := varbitscaleDecode (combined &&& 0xFFF)
    let major2 := varbitscaleDecode (next &&& 0xFFF)
    if major.1 = 0 ∧ major2.1 ≠ 0 then predicted (signed10 (combined >>> 12)) major2.2 major2.1
    else predicted (signed10 (combined >>> 12)) major.2 major.1
  | _ =>
    let major2 := varbitscaleDecode (next &&& 0xFFF)
    predicted (signed10 (combined >>> 22)) major2.2 major2.1

/-- `offsetAngleMean_q16`: 7.5 degrees, or less by a term in the distance. -/
def offsetAngleMeanQ16 (distQ2 : Int) : Int :=
  if distQ2 ≥ 50 * 4 then
    let k2 := (98361 : Int).tdiv distQ2
    9150 - k2 * 2 ^ 6 - (k2 * k2 * k2).tdiv 98304
  else 8578

/-- The offset in degrees; the floating-point product is cut off towards zero. -/
def offsetQ16 (distQ2 : Int) : Int :=
  (offsetAngleMeanQ16 distQ2 * 180 * 100000000).tdiv 314159265

/-- Offset angle and distance of a sample: three in each cabin of four bytes. -/
def sample (prev current : List UInt8) (k : Nat) : Int × Int :=
  let next := if k / 3 = 31 then combinedX3 current 0 else combinedX3 prev (k / 3 + 1)
  let dist := distQ2 (combinedX3 prev (k / 3)) next (k % 3)
  (offsetQ16 dist, dist)

/-- `_onScanNodeUltraCapsuleData`: 96 samples. -/
def unpack (prev current : List UInt8) : List HqNode :=
  sampleLoop (sample prev current)
    ((diffAngleQ8 (startQ8 prev) (startQ8 current) * 2 ^ 3).tdiv 3) 96 0 (startQ8 prev * 2 ^ 8)

/-- `UnpackerHandler_UltraCapsuleNode`. -/
def format : CapsuleFormat Unit where
  ansType := 0x84
  size := 132
  startAngleAt := 2
  unpack _ prev current := ((), unpack prev current)
  onReset := CapsuleState.forget

end Ultra

/-! ### Corrupted frames -/

namespace CapsuleFormat

variable {τ : Type} {f : CapsuleFormat τ}

/-- A frame as the device sends it. -/
structure Intact (f : CapsuleFormat τ) (frame : List UInt8) : Prop where
  framed : f.framing.Frame frame
  summed : recvChecksum frame = checksum frame

theorem toNat_recvChecksum (frame : List UInt8) : (recvChecksum frame).toNat =
    (frame.getD 1 0).toNat % 16 * 16 + (frame.getD 0 0).toNat % 16 := by
  have hlow : (frame.getD 0 0 &&& (0xF : UInt8)).toNat = (frame.getD 0 0).toNat % 2 ^ 4 := by
    rw [UInt8.toNat_and, show UInt8.toNat 0xF = 2 ^ 4 - 1 from rfl,
      Nat.and_two_pow_sub_one_eq_mod]
  have hhigh : (frame.getD 1 0 <<< (4 : UInt8)).toNat = ((frame.getD 1 0).toNat % 16) <<< 4 := by
    rw [UInt8.toNat_shiftLeft, show UInt8.toNat 4 % 8 = 4 from rfl, Nat.shiftLeft_eq,
      Nat.shiftLeft_eq]
    omega
  rw [recvChecksum, UInt8.toNat_or, hlow, hhigh, or_shiftLeft (Nat.mod_lt _ (by omega))]
  rfl

/-- A byte that passes a sync check is told by its low nibble. -/
theorem eq_of_nibbles {a b : UInt8} (hhigh : a >>> 4 = b >>> 4)
    (hlow : a.toNat % 16 = b.toNat % 16) : a = b := by
  apply UInt8.toNat_inj.mp
  have h := congrArg UInt8.toNat hhigh
  rw [UInt8.toNat_shiftRight, UInt8.toNat_shiftRight, show UInt8.toNat 4 % 8 = 4 from rfl,
    Nat.shiftRight_eq_div_pow, Nat.shiftRight_eq_div_pow] at h
  omega

theorem first_nibble {a : UInt8} {rest : List UInt8} (h : f.framing.Frame (a :: rest)) :
    a >>> 4 = 0xA :=
  of_decide_eq_true (h.checked 0 (Nat.succ_pos _))

theorem second_nibble {a b : UInt8} {rest : List UInt8} (h : f.framing.Frame (a :: b :: rest)) :
    b >>> 4 = 0x5 :=
  of_decide_eq_true (h.checked 1 (by simp))

theorem frame_of_nibbles {a b : UInt8} {rest : List UInt8} (ha : a >>> 4 = 0xA)
    (hb : b >>> 4 = 0x5) (hsize : rest.length + 2 = f.size) : f.framing.Frame (a :: b :: rest) := by
  constructor
  · exact hsize
  · rw [framing, ← hsize]
    exact Nat.succ_pos _
  · intro i hi
    match i with
    | 0 => exact decide_eq_true ha
    | 1 => exact decide_eq_true hb
    | k + 2 => rfl

/-- A frame in which one byte was replaced does not match its checksum, as long as it has its
sync nibbles. -/
theorem Intact.set_ne {frame : List UInt8} (h : f.Intact frame) {i : Nat}
    (hi : i < frame.length) {b : UInt8} (hb : b ≠ frame[i])
    (hframe : f.framing.Frame (frame.set i b)) :
    recvChecksum (frame.set i b) ≠ checksum (frame.set i b) := by
  intro heq
  have hsum := h.summed
  apply hb
  match frame, i with
  | a :: rest, 0 =>
    rw [List.set_cons_zero] at heq hframe
    have hsame : recvChecksum (b :: rest) = recvChecksum (a :: rest) := heq.trans hsum.symm
    have hnat := congrArg UInt8.toNat hsame
    rw [toNat_recvChecksum, toNat_recvChecksum] at hnat
    simp only [List.getD_cons_zero, List.getD_cons_succ] at hnat
    change b = a
    exact eq_of_nibbles ((first_nibble hframe).trans (first_nibble h.framed).symm) (by omega)
  | a :: c :: rest, 1 =>
    rw [List.set_cons_succ, List.set_cons_zero] at heq hframe
    have hsame : recvChecksum (a :: b :: rest) = recvChecksum (a :: c :: rest) :=
      heq.trans hsum.symm
    have hnat := congrArg UInt8.toNat hsame
    rw [toNat_recvChecksum, toNat_recvChecksum] at hnat
    simp only [List.getD_cons_zero, List.getD_cons_succ] at hnat
    change b = c
    exact eq_of_nibbles ((second_nibble hframe).trans (second_nibble h.framed).symm) (by omega)
  | a :: c :: rest, k + 2 =>
    have hk : k < rest.length := by simpa using hi
    have hxor : xorAll (rest.set k b) = xorAll rest := heq.symm.trans hsum
    rw [xorAll_set rest hk] at hxor
    have hzero : rest[k] ^^^ b = 0 := by
      calc rest[k] ^^^ b = (xorAll rest ^^^ xorAll rest) ^^^ (rest[k] ^^^ b) := by
            rw [UInt8.xor_self, UInt8.zero_xor]
        _ = xorAll rest ^^^ (xorAll rest ^^^ (rest[k] ^^^ b)) := UInt8.xor_assoc ..
        _ = 0 := by rw [hxor, UInt8.xor_self]
    exact (UInt8.xor_eq_zero_iff.mp hzero).symm

/-- A handler between two frames, without a frame before. -/
def fresh (carried : τ) : Handler τ :=
  { cached := [], state := { previous := none, carried := carried } }

/-- A handler between frames consumes a stream of frames one by one. -/
theorem emit_onByte {frames : List (List UInt8)} (h : ∀ frame ∈ frames, f.framing.Frame frame)
    (s : CapsuleState τ) : emit f.onByte { cached := [], state := s } frames.flatten =
      ({ cached := [], state := (emit f.onFrame s frames).1 }, (emit f.onFrame s frames).2) :=
  Framing.emit_frames h s

/-- A frame that fails its checksum is reported, and the frame before it is forgotten. -/
theorem onFrame_corrupted {frame : List UInt8} (h : recvChecksum frame ≠ checksum frame)
    (s : CapsuleState τ) : f.onFrame s frame =
      (s.forget, [.decodingError errEventOnExpChecksumErr f.ansType frame]) := by
  rw [onFrame, if_neg h]

/-- One byte of one frame is replaced on the wire, and its sync nibbles are not. Then this
frame is reported and unpacks to nothing, no sample lies between it and its neighbours, and
the frames before it and behind it are unpacked as if each part were a stream of its own; the
second one starts with what unpacking the first one carried over. -/
theorem corruption_isolated (carried : τ) {before behind : List (List UInt8)}
    {frame : List UInt8} (hbefore : ∀ g ∈ before, f.framing.Frame g)
    (hbehind : ∀ g ∈ behind, f.framing.Frame g) (hframe : f.Intact frame) {i : Nat}
    (hi : i < frame.length) {b : UInt8} (hb : b ≠ frame[i])
    (hsync : f.framing.Frame (frame.set i b)) :
    (emit f.onByte (fresh carried) (before ++ frame.set i b :: behind).flatten).2 =
      (emit f.onByte (fresh carried) before.flatten).2 ++
        .decodingError errEventOnExpChecksumErr f.ansType (frame.set i b) ::
          (emit f.onByte (fresh (emit f.onByte (fresh carried) before.flatten).1.state.carried)
            behind.flatten).2 := by
  have hall : ∀ g ∈ before ++ frame.set i b :: behind, f.framing.Frame g := by
    intro g hg
    cases List.mem_append.mp hg with
    | inl hg => exact hbefore g hg
    | inr hg =>
      cases List.mem_cons.mp hg with
      | inl hg => exact hg ▸ hsync
      | inr hg => exact hbehind g hg
  simp only [fresh, emit_onByte hall, emit_onByte hbefore, emit_onByte hbehind]
  rw [emit_append, emit_cons, onFrame_corrupted (hframe.set_ne hi hb hsync)]
  rfl

/-- A frame without echoes: its checksum nibbles, its start angle, and no distances. -/
def blank (size : Nat) (first second low high : UInt8) : List UInt8 :=
  first :: second :: low :: high :: List.replicate (size - 4) 0

theorem intact_blank {first second low high : UInt8} (hsize : 4 ≤ f.size)
    (hfirst : first >>> 4 = 0xA) (hsecond : second >>> 4 = 0x5)
    (hsum : (first &&& (0xF : UInt8)) ||| (second <<< (4 : UInt8)) = low ^^^ high) :
    f.Intact (blank f.size first second low high) := by
  constructor
  · apply frame_of_nibbles hfirst hsecond
    simp only [List.length_cons, List.length_replicate]
    omega
  · have hzeros : ∀ n, xorAll (List.replicate n 0) = 0 := by
      intro n
      induction n with
      | zero => rfl
      | succ n ih => rw [List.replicate_succ, xorAll, ih, UInt8.xor_zero]
    change (first &&& (0xF : UInt8)) ||| (second <<< (4 : UInt8)) = low ^^^ (high ^^^ xorAll _)
    rw [hzeros, UInt8.xor_zero, hsum]

/-- The start angle of the second of three express frames is garbled. -/
theorem corruption_isolated_start :
    (emit Express.format.onByte (fresh ())
      ([blank 84 0xA7 0x5D 0x80 0x57] ++ (blank 84 0xA1 0x54 0x40 0x01).set 3 0x21 ::
        [blank 84 0xA2 0x58 0x80 0x02]).flatten).2 =
      (emit Express.format.onByte (fresh ()) [blank 84 0xA7 0x5D 0x80 0x57].flatten).2 ++
        .decodingError errEventOnExpChecksumErr 0x82 ((blank 84 0xA1 0x54 0x40 0x01).set 3 0x21) ::
          (emit Express.format.onByte (fresh ()) [blank 84 0xA2 0x58 0x80 0x02].flatten).2 := by
  have hbefore : Express.format.Intact (blank 84 0xA7 0x5D 0x80 0x57) :=
    intact_blank (by decide) (by decide) (by decide) (by decide)
  have hframe : Express.format.Intact (blank 84 0xA1 0x54 0x40 0x01) :=
    intact_blank (by decide) (by decide) (by decide) (by decide)
  have hbehind : Express.format.Intact (blank 84 0xA2 0x58 0x80 0x02) :=
    intact_blank (by decide) (by decide) (by decide) (by decide)
  have hsync : Express.format.framing.Frame ((blank 84 0xA1 0x54 0x40 0x01).set 3 0x21) :=
    frame_of_nibbles (by decide) (by decide) (by decide)
  have hsplit := corruption_isolated () (List.forall_mem_singleton.mpr hbefore.framed)
    (List.forall_mem_singleton.mpr hbehind.framed) hframe (by decide) (by decide) hsync
  -- the express format carries nothing from one part to the other
  generalize CapsuleState.carried _ = carried at hsplit
  exact hsplit

end CapsuleFormat

end MonitoringRobot.Lidar
