import MonitoringRobot.Base.Crc
import MonitoringRobot.Lidar.Nodes

/-!
# High-quality nodes

`UnpackerHandler_HQNode`
(`edge_packages/src/rplidar_ros/sdk/src/dataunpacker/unpacker/handler_hqnode.cpp:92-190`)
collects frames of 96 nodes behind a sync byte and drops those whose check value does not fit.
The value is that of `crc32` (`edge_packages/src/rplidar_ros/sdk/src/sl_crc.cpp:35-97`), which
goes through a table. Timestamps are left out.
-/

namespace MonitoringRobot.Lidar
open MonitoringRobot.Base MonitoringRobot.Base.Machine

namespace Crc32

/-- `bitrev`: the lowest `bw` bits the other way round. -/
def bitrev (input : BitVec 32) (bw : Nat) : BitVec 32 :=
  ((List.range bw).foldl (fun (s : BitVec 32 × BitVec 32) i ↦
    (s.1 >>> 1, if s.1 &&& 1 ≠ 0 then s.2 ||| ((1 : BitVec 32) <<< (bw - 1 - i)) else s.2))
    (input, 0)).2

/-- `init`: the table of a generator. -/
def table (poly : BitVec 32) (i : UInt8) : BitVec 32 :=
  (List.range 8).foldl (fun c _ ↦
    if c &&& 1 ≠ 0 then bitrev poly 32 ^^^ (c >>> 1) else c >>> 1) (i.toBitVec.setWidth 32)

/-- The generator `getResult` initialises the table with. -/
def generator : BitVec 32 := 0x4C11DB7

/-- One byte through the table. -/
def calByte (crc : BitVec 32) (b : UInt8) : BitVec 32 :=
  (crc >>> 8) ^^^ table generator (UInt8.ofBitVec (crc.setWidth 8) ^^^ b)

/-- The zero bytes behind a message; a whole number of words is padded by one more. -/
def leftBytes (len : Nat) : Nat := 4 - (len &&& 3)

/-- `cal`: the length has 16 bits. -/
def cal (crc : BitVec 32) (input : List UInt8) : BitVec 32 :=
  (List.replicate (leftBytes (input.length % 2 ^ 16)) 0).foldl calByte
    ((input.take (input.length % 2 ^ 16)).foldl calByte crc) ^^^ 0xFFFFFFFF

/-- `getResult`. -/
def getResult (input : List UInt8) : BitVec 32 := cal 0xFFFFFFFF input

end Crc32

/-- `sl_lidar_response_measurement_node_hq_t` over eight bytes. -/
def HqNode.ofBytes (bytes : List UInt8) : HqNode where
  angleZQ14 := field bytes 0 2
  distMmQ2 := field bytes 2 4
  quality := field bytes 6 1
  flag := field bytes 7 1

/-! ### The handler -/

namespace HqNodes

/-- `RPLIDAR_ANS_TYPE_MEASUREMENT_HQ`. -/
def ansType : UInt8 := 0x83

/-- `RPLIDAR_RESP_MEASUREMENT_HQ_SYNC`. -/
def syncByte : UInt8 := 0xA5

/-- `sl_lidar_response_hq_capsule_measurement_nodes_t`: a sync byte, a time of eight bytes, 96
nodes and the check value. -/
def framing : Framing where
  size := 781
  check
    | 0, b => b = syncByte
    | _, _ => true

/-- The nodes of a frame. -/
def nodes (frame : List UInt8) : List HqNode :=
  (List.range 96).map fun pos ↦ HqNode.ofBytes (frame.drop (9 + 8 * pos))

/-- `crc32`, which stands in the last four bytes. -/
def recvCrc (frame : List UInt8) : Nat := field frame 777 4

/-- The check value over the bytes before it. -/
def crcCalc (frame : List UInt8) : Nat := (Crc32.getResult (frame.take 777)).toNat

/-- The last byte of a frame is in place. -/
def onFrame (frame : List UInt8) : List Decoded :=
  if recvCrc frame = crcCalc frame then (nodes frame).map .hqNode
  else [.decodingError errEventOnExpChecksumErr ansType frame]

/-- The handler's buffer. -/
abbrev Handler := Collector Unit

/-- `reset`. -/
def reset (_ : Handler) : Handler := { cached := [], state := () }

/-- One pass of the loop of `onData`. -/
def onByte : Handler → UInt8 → Handler × List Decoded :=
  framing.onByte id fun s frame ↦ (s, onFrame frame)

/-- `onData`. -/
def onData (h : Handler) (data : List UInt8) : Handler × List Decoded := emit onByte h data

end HqNodes

/-! ### The check value -/

namespace Crc32

/-- The generator, reflected. -/
def reflected : BitVec 32 := 0xEDB88320

theorem bitrev_generator : bitrev generator 32 = reflected := by decide

theorem reflected_top : reflected.getLsbD (32 - 1) = true := by decide

theorem and_one_ne_zero (c : BitVec 32) : c &&& 1 ≠ 0 ↔ c.getLsbD 0 = true := by
  constructor
  · intro h
    by_contra hlow
    apply h
    apply BitVec.eq_of_getLsbD_eq
    intro i _
    cases i with
    | zero => simpa using hlow
    | succ i => simp [BitVec.getLsbD_one]
  · intro hlow h
    have hbit := congrArg (fun x : BitVec 32 ↦ x.getLsbD 0) h
    rw [BitVec.getLsbD_and, hlow] at hbit
    cases hbit

/-- The inner loop of the table is eight steps of the remainder. -/
theorem table_eq_entry : table generator = Crc.entry reflected := by
  funext i
  have hloop : ∀ (n : Nat) (c : BitVec 32), (List.range n).foldl (fun (c : BitVec 32) _ ↦
      if c &&& 1 ≠ 0 then bitrev generator 32 ^^^ (c >>> 1) else c >>> 1) c =
        Nat.iterate (Crc.shiftBit reflected) n c := by
    intro n c
    induction n with
    | zero => rfl
    | succ n ih =>
      rw [List.range_succ, List.foldl_append, ih, Function.iterate_succ_apply', List.foldl_cons,
        List.foldl_nil, bitrev_generator, Crc.shiftBit]
      simp only [and_one_ne_zero]
  exact hloop 8 _

/-- A byte through the table is a byte through the bitwise check. -/
theorem calByte_eq : calByte = Crc.byteStep (Crc.entry reflected) := by
  funext crc b
  rw [calByte, table_eq_entry, Crc.byteStep]

/-- The message `cal` goes over: the part within 16 bits of length, padded. -/
def padded (input : List UInt8) : List UInt8 :=
  input.take (input.length % 2 ^ 16) ++ List.replicate (leftBytes (input.length % 2 ^ 16)) 0

/-- The table-driven check value of any message is the remainder of its padded bits under the
reflected generator, with ones before and complemented behind. -/
theorem getResult_eq_remainder (input : List UInt8) : getResult input =
    Crc.remainder reflected 0xFFFFFFFF (Crc.messageBits (padded input)) ^^^ 0xFFFFFFFF := by
  have hwidth : 8 ≤ 32 := by omega
  rw [getResult, cal, calByte_eq, ← List.foldl_append, Crc.foldl_byteStep hwidth]
  rfl

end Crc32

/-! ### What the device sends -/

/-- A node with the widths of its fields. -/
structure HqSample where
  angleZQ14 : Fin (2 ^ 16)
  distMmQ2 : Fin (2 ^ 32)
  quality : Fin (2 ^ 8)
  flag : Fin (2 ^ 8)

namespace HqSample

/-- The node of a sample. -/
def node (s : HqSample) : HqNode where
  angleZQ14 := s.angleZQ14.val
  distMmQ2 := s.distMmQ2.val
  quality := s.quality.val
  flag := s.flag.val

/-- The eight bytes of a sample. -/
def bytes (s : HqSample) : List UInt8 :=
  toLE 2 s.angleZQ14.val ++ (toLE 4 s.distMmQ2.val ++ (toLE 1 s.quality.val ++ toLE 1 s.flag.val))

@[simp] theorem length_bytes (s : HqSample) : s.bytes.length = 8 := by
  simp [bytes]

/-- A node is read back from its bytes, whatever stands behind them. -/
theorem ofBytes_bytes (s : HqSample) (rest : List UInt8) :
    HqNode.ofBytes (s.bytes ++ rest) = s.node := by
  have hangle : field (s.bytes ++ rest) 0 2 = s.angleZQ14.val :=
    ofLE_toLE_of_lt (k := 2) s.angleZQ14.isLt
  have hdist : field (s.bytes ++ rest) 2 4 = s.distMmQ2.val :=
    ofLE_toLE_of_lt (k := 4) s.distMmQ2.isLt
  have hquality : field (s.bytes ++ rest) 6 1 = s.quality.val :=
    ofLE_toLE_of_lt (k := 1) s.quality.isLt
  have hflag : field (s.bytes ++ rest) 7 1 = s.flag.val :=
    ofLE_toLE_of_lt (k := 1) s.flag.isLt
  rw [HqNode.ofBytes, hangle, hdist, hquality, hflag]
  rfl

end HqSample

/-- A frame of the device. -/
structure HqFrame where
  timeStamp : Fin (2 ^ 64)
  samples : List HqSample
  full : samples.length = 96

namespace HqFrame

/-- The bytes under the check value. -/
def covered (f : HqFrame) : List UInt8 :=
  HqNodes.syncByte :: (toLE 8 f.timeStamp.val ++ f.samples.flatMap HqSample.bytes)

/-- All bytes of the frame. -/
def bytes (f : HqFrame) : List UInt8 :=
  f.covered ++ toLE 4 (Crc32.getResult f.covered).toNat

theorem length_flatMap_bytes (samples : List HqSample) :
    (samples.flatMap HqSample.bytes).length = 8 * samples.length := by
  induction samples with
  | nil => rfl
  | cons s samples ih =>
    rw [List.flatMap_cons, List.length_append, ih, s.length_bytes, List.length_cons]
    omega

/-- The bytes under the check value fill the frame up to it. -/
@[simp] theorem length_covered (f : HqFrame) : f.covered.length = 777 := by
  rw [covered, List.length_cons, List.length_append, length_toLE, length_flatMap_bytes, f.full]

@[simp] theorem length_bytes (f : HqFrame) : f.bytes.length = 781 := by
  rw [bytes, List.length_append, length_covered, length_toLE]

theorem drop_flatMap_bytes (samples : List HqSample) (rest : List UInt8) {k : Nat}
    (hk : k ≤ samples.length) : (samples.flatMap HqSample.bytes ++ rest).drop (8 * k) =
      (samples.drop k).flatMap HqSample.bytes ++ rest := by
  induction k generalizing samples with
  | zero => rfl
  | succ k ih =>
    cases samples with
    | nil => exact absurd hk (Nat.not_succ_le_zero k)
    | cons s samples =>
      rw [List.flatMap_cons, List.append_assoc, Nat.mul_succ, Nat.add_comm, ← List.drop_drop,
        List.drop_left' s.length_bytes, ih samples (Nat.le_of_succ_le_succ hk),
        List.drop_succ_cons]

theorem nodes_bytes (f : HqFrame) : HqNodes.nodes f.bytes = f.samples.map HqSample.node := by
  apply List.ext_getElem
  · rw [HqNodes.nodes, List.length_map, List.length_range, List.length_map, f.full]
  · intro i hi hi'
    rw [List.length_map] at hi'
    have hdrop : f.bytes.drop (9 + 8 * i) = f.samples[i].bytes ++
        ((f.samples.drop (i + 1)).flatMap HqSample.bytes ++
          toLE 4 (Crc32.getResult f.covered).toNat) := by
      rw [← List.drop_drop]
      change (f.samples.flatMap HqSample.bytes ++ _).drop (8 * i) = _
      rw [drop_flatMap_bytes _ _ (Nat.le_of_lt hi'), List.drop_eq_getElem_cons hi',
        List.flatMap_cons, List.append_assoc]
    simp only [HqNodes.nodes, List.getElem_map, List.getElem_range]
    rw [hdrop, HqSample.ofBytes_bytes]

theorem recvCrc_bytes (f : HqFrame) :
    HqNodes.recvCrc f.bytes = (Crc32.getResult f.covered).toNat := by
  rw [HqNodes.recvCrc, field, bytes, List.drop_left' f.length_covered]
  have htake : (toLE 4 (Crc32.getResult f.covered).toNat).take 4 =
      toLE 4 (Crc32.getResult f.covered).toNat := by
    rw [List.take_of_length_le (Nat.le_of_eq (length_toLE ..))]
  rw [htake, ofLE_toLE_of_lt (Crc32.getResult f.covered).isLt]

/-- The check value is taken over the bytes it was made of. -/
theorem crcCalc_bytes (f : HqFrame) :
    HqNodes.crcCalc f.bytes = (Crc32.getResult f.covered).toNat := by
  rw [HqNodes.crcCalc, bytes, List.take_left' f.length_covered]

end HqFrame

/-! ### What arrives -/

/-- Two byte strings whose bits differ within at most 32 consecutive ones. -/
def Burst (sent received : List UInt8) : Prop :=
  ∃ before burst burst' behind, burst ≠ burst' ∧ burst.length = burst'.length ∧
    burst.length ≤ 32 ∧ Crc.messageBits sent = before ++ burst ++ behind ∧
    Crc.messageBits received = before ++ burst' ++ behind

theorem Burst.getResult_ne {sent received : List UInt8} (h : Burst sent received)
    (hsent : sent.length = 777) (hreceived : received.length = 777) :
    Crc32.getResult sent ≠ Crc32.getResult received := by
  have hpadded : ∀ bytes : List UInt8, bytes.length = 777 →
      Crc.messageBits (Crc32.padded bytes) =
        Crc.messageBits bytes ++ Crc.messageBits [0, 0, 0] := by
    intro bytes hlen
    have hmod : 777 % 2 ^ 16 = 777 := rfl
    rw [Crc32.padded, hlen, hmod, List.take_of_length_le (Nat.le_of_eq hlen)]
    exact List.flatMap_append
  obtain ⟨before, burst, burst', behind, hne, hlen, hwidth, hs, hr⟩ := h
  rw [Crc32.getResult_eq_remainder, Crc32.getResult_eq_remainder, hpadded _ hsent,
    hpadded _ hreceived, hs, hr, ne_eq, BitVec.xor_left_inj, List.append_assoc (before ++ burst),
    List.append_assoc (before ++ burst')]
  exact Crc.remainder_ne_of_burst Crc32.reflected_top _ hne hlen hwidth

/-- Bytes without a sync byte, and a frame behind them. It arrives as it was sent, or with an
error burst under the check value, or with another check value. -/
structure HqReception where
  noise : List UInt8
  sent : HqFrame
  received : List UInt8
  quiet : HqNodes.syncByte ∉ noise
  length_eq : received.length = 781
  sync : received.head? = some HqNodes.syncByte
  damage : received = sent.bytes ∨
    (Burst sent.covered (received.take 777) ∧
      HqNodes.recvCrc received = HqNodes.recvCrc sent.bytes) ∨
    (received.take 777 = sent.covered ∧ HqNodes.recvCrc received ≠ HqNodes.recvCrc sent.bytes)

namespace HqReception

/-- All bytes that arrive. -/
def bytes (r : HqReception) : List UInt8 := r.noise ++ r.received

/-- What the handler publishes of a frame: its nodes, or that it was damaged. -/
def published (r : HqReception) : List Decoded :=
  if r.received = r.sent.bytes then r.sent.samples.map fun s ↦ .hqNode s.node
  else [.decodingError errEventOnExpChecksumErr HqNodes.ansType r.received]

/-- The handler keeps an intact frame and drops a damaged one. -/
theorem onFrame_received (r : HqReception) : HqNodes.onFrame r.received = r.published := by
  have hcrc := (r.sent.recvCrc_bytes).trans (r.sent.crcCalc_bytes).symm
  rcases r.damage with hsame | ⟨hburst, hvalue⟩ | ⟨hcovered, hvalue⟩
  · rw [published, if_pos hsame, hsame, HqNodes.onFrame, if_pos hcrc, r.sent.nodes_bytes,
      List.map_map]
    rfl
  · have htake : (r.received.take 777).length = 777 := by
      rw [List.length_take, r.length_eq]
      rfl
    have hresult := hburst.getResult_ne r.sent.length_covered htake
    have hcheck : HqNodes.recvCrc r.received ≠ HqNodes.crcCalc r.received := by
      rw [hvalue, r.sent.recvCrc_bytes]
      exact fun h ↦ hresult (BitVec.eq_of_toNat_eq h)
    have hdiff : r.received ≠ r.sent.bytes := by
      intro hsame
      rw [hsame] at hcheck
      exact hcheck hcrc
    rw [published, if_neg hdiff, HqNodes.onFrame, if_neg hcheck]
  · have hcheck : HqNodes.recvCrc r.received ≠ HqNodes.crcCalc r.received := by
      rw [HqNodes.crcCalc, hcovered]
      exact fun h ↦ hvalue (h.trans r.sent.recvCrc_bytes.symm)
    have hdiff : r.received ≠ r.sent.bytes := fun hsame ↦ hvalue (congrArg HqNodes.recvCrc hsame)
    rw [published, if_neg hdiff, HqNodes.onFrame, if_neg hcheck]

theorem frame_received (r : HqReception) : HqNodes.framing.Frame r.received := by
  constructor
  · exact r.length_eq
  · exact Nat.succ_pos 780
  · intro i h
    match i with
    | 0 =>
      have hsync := r.sync
      rw [List.head?_eq_getElem?, List.getElem?_eq_getElem h] at hsync
      exact decide_eq_true (Option.some.inj hsync)
    | k + 1 => rfl

/-- A handler between two frames is between two frames again behind the bytes. -/
theorem emit_bytes (r : HqReception) : emit HqNodes.onByte { cached := [], state := () } r.bytes =
    ({ cached := [], state := () }, r.published) := by
  have hquiet : ∀ b ∈ r.noise, HqNodes.framing.check 0 b = false := by
    intro b hb
    exact decide_eq_false fun hsync ↦ r.quiet (hsync ▸ hb)
  have hskip : emit HqNodes.onByte { cached := [], state := () } r.noise =
      ({ cached := [], state := () }, []) := Framing.emit_skip hquiet rfl
  have hframe : emit HqNodes.onByte { cached := [], state := () } r.received =
      ({ cached := [], state := () }, HqNodes.onFrame r.received) :=
    Framing.emit_frame r.frame_received ()
  rw [bytes, emit_append, hskip, List.nil_append, hframe, r.onFrame_received]

/-- However the stream is cut into buffers, the handler publishes the nodes of the frames that
arrive as they were sent, and one error for each of the others: no damage by a burst of at most
32 bits under the check value, or of that value, passes the check, and none reaches the frames
around it. -/
theorem decode_receptions (receptions : List HqReception) {buffers : List (List UInt8)}
    (hbuffers : buffers.flatten = receptions.flatMap bytes) :
    (emit HqNodes.onData { cached := [], state := () } buffers).2 =
      receptions.flatMap published := by
  have hflat : emit HqNodes.onData { cached := [], state := () } buffers =
      emit HqNodes.onByte { cached := [], state := () } buffers.flatten := emit_flatten _ buffers
  rw [hflat, hbuffers]
  refine (emit_flatMap (P := (· = { cached := [], state := () })) ?_ rfl).2
  rintro r - c rfl
  rw [r.emit_bytes]
  exact ⟨rfl, rfl⟩

/-- A frame of blank nodes. -/
def blankFrame (timeStamp : Fin (2 ^ 64)) : HqFrame where
  timeStamp := timeStamp
  samples := List.replicate 96 { angleZQ14 := 0, distMmQ2 := 0, quality := 0, flag := 0 }
  full := List.length_replicate ..

/-- A blank frame behind a byte of noise. -/
def intact : HqReception where
  noise := [0x00]
  sent := blankFrame 0
  received := (blankFrame 0).bytes
  quiet := by decide
  length_eq := HqFrame.length_bytes _
  sync := rfl
  damage := Or.inl rfl

/-- A blank frame with one bit of its time changed. -/
def struck : HqReception where
  noise := []
  sent := blankFrame 0
  received := (blankFrame 1).covered ++ toLE 4 (Crc32.getResult (blankFrame 0).covered).toNat
  quiet := List.not_mem_nil
  length_eq := by rw [List.length_append, HqFrame.length_covered, length_toLE]
  sync := rfl
  damage := by
    refine Or.inr (Or.inl ⟨?_, ?_⟩)
    · rw [List.take_left' (HqFrame.length_covered _)]
      exact ⟨Crc.byteBits HqNodes.syncByte, [false], [true], List.replicate 7 false ++
        Crc.messageBits (toLE 7 0 ++ (blankFrame 0).samples.flatMap HqSample.bytes),
        by decide, rfl, by decide, rfl, rfl⟩
    · rw [HqNodes.recvCrc, HqNodes.recvCrc, field, field, HqFrame.bytes,
        List.drop_left' (HqFrame.length_covered _), List.drop_left' (HqFrame.length_covered _)]

theorem struck_ne : struck.received ≠ struck.sent.bytes := by
  intro h
  have htime := congrArg (fun frame ↦ frame[1]?) h
  have hone : struck.received[1]? = some 1 := rfl
  have hzero : struck.sent.bytes[1]? = some 0 := rfl
  simp only [hone, hzero] at htime
  cases htime

/-- An intact frame and one with a changed bit, in two buffers. -/
theorem decode_receptions_two : (emit HqNodes.onData { cached := [], state := () }
      [intact.bytes ++ [HqNodes.syncByte], struck.received.tail]).2 =
    List.replicate 96 (.hqNode { angleZQ14 := 0, distMmQ2 := 0, quality := 0, flag := 0 }) ++
      [.decodingError 0x8002 0x83 struck.received] := by
  have hintact : intact.published = List.replicate 96
      (.hqNode { angleZQ14 := 0, distMmQ2 := 0, quality := 0, flag := 0 }) := if_pos rfl
  have hstruck : struck.published = [.decodingError 0x8002 0x83 struck.received] :=
    if_neg struck_ne
  have hbuffers : [intact.bytes ++ [HqNodes.syncByte], struck.received.tail].flatten =
      [intact, struck].flatMap bytes := by
    have hsync : struck.bytes = HqNodes.syncByte :: struck.received.tail := rfl
    rw [List.flatMap_cons, List.flatMap_cons, hsync, List.flatten_cons, List.append_assoc]
    rfl
  rw [decode_receptions [intact, struck] hbuffers, List.flatMap_cons, List.flatMap_cons,
    List.flatMap_nil, List.append_nil, hintact, hstruck]

end HqReception

end MonitoringRobot.Lidar
