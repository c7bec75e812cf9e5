import MonitoringRobot.Lidar.Codec

/-!
# Requests to the laser scanner

`estimateLength` and `onEncodeData` of `RPLidarProtocolCodec`
(`edge_packages/src/rplidar_ros/sdk/src/sl_lidarprotocol_codec.cpp:78-130`) write a request
byte by byte and sum up the checksum on the way; `AsyncTransceiver::sendMessage` gives them a
buffer of the estimated length. The size field is one byte.
-/

namespace MonitoringRobot.Lidar
open MonitoringRobot.Base

namespace ProtocolMessage

/-- The constructor from a payload. -/
def ofPayload (cmd : UInt8) (payload : List UInt8) : ProtocolMessage :=
  { len := payload.length, cmd := cmd, data := payload }

/-- `message->cmd & RPLIDAR_CMDFLAG_HAS_PAYLOAD`. -/
def hasPayload (m : ProtocolMessage) : Bool := m.cmd &&& cmdFlagHasPayload ≠ 0

/-- `estimateLength`. -/
def estimateLength (m : ProtocolMessage) : Nat :=
  if m.hasPayload then 2 + (m.len &&& 0xFF) + 2 else 2

/-- The byte written at a position; nothing when it is read from outside the payload. -/
def currentTxByte (m : ProtocolMessage) (checksum : UInt8) : Nat → Option UInt8
  | 0 => some cmdSyncByte
  | 1 => some m.cmd
  | 2 => some (UInt8.ofNat m.len)
  | payloadPos + 3 => if payloadPos = m.len then some checksum else m.data[payloadPos]?

/-- The loop of `onEncodeData`: so many bytes from `currentPos` on. -/
def encodeFrom (m : ProtocolMessage) : Nat → Nat → UInt8 → Option (List UInt8)
  | 0, _, _ => some []
  | count + 1, currentPos, checksum => do
    let byte ← m.currentTxByte checksum currentPos
    let rest ← m.encodeFrom count (currentPos + 1) (checksum ^^^ byte)
    return byte :: rest

/-- `onEncodeData` into a buffer of `size` bytes. -/
def onEncodeData (m : ProtocolMessage) (size : Nat) : Option (List UInt8) :=
  m.encodeFrom (min size m.estimateLength) 0 0

/-- The bytes `sendMessage` writes to the channel. -/
def sendMessage (m : ProtocolMessage) : Option (List UInt8) :=
  m.onEncodeData m.estimateLength

variable {m : ProtocolMessage}

/-- What is written after some bytes continues their checksum. -/
theorem encodeFrom_add {i j pos : Nat} {checksum : UInt8} {bs : List UInt8}
    (h : m.encodeFrom i pos checksum = some bs) :
    m.encodeFrom (i + j) pos checksum =
      (m.encodeFrom j (pos + i) (checksum ^^^ xorAll bs)).map (bs ++ ·) := by
  induction i generalizing pos checksum bs with
  | zero =>
    rw [encodeFrom, Option.some.injEq] at h
    subst h
    rw [Nat.zero_add, Nat.add_zero, xorAll, UInt8.xor_zero]
    cases m.encodeFrom j pos checksum <;> rfl
  | succ i ih =>
    rw [encodeFrom] at h
    cases hbyte : m.currentTxByte checksum pos with
    | none =>
      rw [hbyte] at h
      cases h
    | some b =>
      cases hrest : m.encodeFrom i (pos + 1) (checksum ^^^ b) with
      | none =>
        simp only [hbyte, hrest, Option.bind_eq_bind, Option.bind_some, Option.bind_none] at h
        cases h
      | some rest =>
        simp only [hbyte, hrest, Option.bind_eq_bind, Option.bind_some, Option.pure_def,
          Option.some.injEq] at h
        subst h
        rw [Nat.succ_add, encodeFrom, hbyte]
        simp only [Option.bind_eq_bind, Option.bind_some, ih hrest, xorAll, UInt8.xor_assoc]
        rw [Nat.add_right_comm pos 1 i, Nat.add_assoc]
        cases m.encodeFrom j (pos + (i + 1)) (checksum ^^^ (b ^^^ xorAll rest)) <;> rfl

theorem encodeFrom_payload (hlen : m.data.length = m.len) {k n : Nat} (h : k + n ≤ m.len)
    (checksum : UInt8) :
    m.encodeFrom n (k + 3) checksum = some ((m.data.drop k).take n) := by
  induction n generalizing k checksum with
  | zero => rw [encodeFrom, List.take_zero]
  | succ n ih =>
    have hlt : k < m.data.length := by omega
    have hbyte : m.currentTxByte checksum (k + 3) = some m.data[k] := by
      rw [currentTxByte, if_neg (by omega), List.getElem?_eq_getElem hlt]
    rw [encodeFrom, hbyte, List.drop_eq_getElem_cons hlt, List.take_succ_cons]
    have hrest := ih (k := k + 1) (by omega) (checksum ^^^ m.data[k])
    rw [Nat.add_right_comm] at hrest
    simp only [Option.bind_eq_bind, Option.bind_some, hrest, Option.pure_def]

/-- The three bytes in front of the payload. -/
def head (m : ProtocolMessage) : List UInt8 := [cmdSyncByte, m.cmd, UInt8.ofNat m.len]

theorem encodeFrom_head (m : ProtocolMessage) (n : Nat) : m.encodeFrom (3 + n) 0 0 =
    (m.encodeFrom n 3 (xorAll m.head)).map (m.head ++ ·) := by
  have hhead : m.encodeFrom 3 0 0 = some m.head := rfl
  rw [encodeFrom_add hhead, Nat.zero_add, UInt8.zero_xor]

theorem sendMessage_command (h : m.hasPayload = false) :
    m.sendMessage = some [cmdSyncByte, m.cmd] := by
  rw [sendMessage, onEncodeData, Nat.min_self, estimateLength, h]
  rfl

/-- A payload of less than 256 bytes is followed by the checksum. -/
theorem sendMessage_short (h : m.hasPayload = true) (hlen : m.data.length = m.len)
    (hlt : m.len < 256) : m.sendMessage =
      some (m.head ++ (m.data ++ [xorAll (m.head ++ m.data)])) := by
  have hsize : m.estimateLength = 3 + (m.len + 1) := by
    rw [estimateLength, if_pos h, show 0xFF = 2 ^ 8 - 1 from rfl,
      Nat.and_two_pow_sub_one_eq_mod, Nat.mod_eq_of_lt hlt]
    omega
  have hdata : m.encodeFrom m.len 3 (xorAll m.head) = some m.data := by
    have hpayload := encodeFrom_payload (k := 0) hlen (Nat.le_of_eq (Nat.zero_add _))
      (xorAll m.head)
    rwa [List.drop_zero, List.take_of_length_le (Nat.le_of_eq hlen), Nat.zero_add] at hpayload
  have hsum : m.encodeFrom 1 (3 + m.len) (xorAll m.head ^^^ xorAll m.data) =
      some [xorAll (m.head ++ m.data)] := by
    rw [encodeFrom, Nat.add_comm, currentTxByte, if_pos rfl, xorAll_append]
    rfl
  rw [sendMessage, onEncodeData, Nat.min_self, hsize, encodeFrom_head, encodeFrom_add hdata, hsum]
  rfl

/-- A longer payload is cut off behind the byte its size field counts up to, and no checksum
is written. -/
theorem sendMessage_long (h : m.hasPayload = true) (hlen : m.data.length = m.len)
    (hle : 256 ≤ m.len) : m.sendMessage =
      some (m.head ++ m.data.take (m.len % 256 + 1)) := by
  have hmod : m.len % 256 < 256 := Nat.mod_lt _ (by omega)
  have hsize : m.estimateLength = 3 + (m.len % 256 + 1) := by
    rw [estimateLength, if_pos h, show 0xFF = 2 ^ 8 - 1 from rfl, Nat.and_two_pow_sub_one_eq_mod]
    omega
  have hpayload := encodeFrom_payload (k := 0) (n := m.len % 256 + 1) hlen (by omega)
    (xorAll m.head)
  rw [List.drop_zero, Nat.zero_add] at hpayload
  rw [sendMessage, onEncodeData, Nat.min_self, hsize, encodeFrom_head, hpayload]
  rfl

/-- `sl_lidar_cmd_packet_t` as the device can check it: the size byte counts the payload
bytes, all of which are there, and the bytes sum to zero. -/
structure Packet (cmd : UInt8) (payload bytes : List UInt8) : Prop where
  layout : ∃ size checksum, bytes = cmdSyncByte :: cmd :: size :: (payload ++ [checksum]) ∧
    size.toNat = payload.length
  sum : xorAll bytes = 0

/-- A request with a payload is always written, and it is a packet of that payload exactly
when the payload has less than 256 bytes. From 256 bytes on the size byte holds the rest modulo
256, one payload byte more than that follows, and the others and the checksum are not written. -/
theorem request_packet_iff {cmd : UInt8} (payload : List UInt8)
    (h : (ofPayload cmd payload).hasPayload = true) :
    ∃ bytes, (ofPayload cmd payload).sendMessage = some bytes ∧
      (Packet cmd payload bytes ↔ payload.length < 256) ∧
      (256 ≤ payload.length → payload.length % 256 + 1 < payload.length ∧
        bytes = cmdSyncByte :: cmd :: UInt8.ofNat (payload.length % 256) ::
          payload.take (payload.length % 256 + 1)) := by
  by_cases hlt : payload.length < 256
  · refine ⟨_, sendMessage_short h rfl hlt, ?_, fun hle ↦ absurd hlt (not_lt.mpr hle)⟩
    simp only [hlt, iff_true]
    constructor
    · refine ⟨UInt8.ofNat payload.length, _, rfl, ?_⟩
      rw [UInt8.toNat_ofNat', Nat.mod_eq_of_lt hlt]
    · rw [← List.append_assoc, xorAll_concat_self]
  · have hle : 256 ≤ payload.length := Nat.le_of_not_lt hlt
    have hsize : UInt8.ofNat (payload.length % 256) = UInt8.ofNat payload.length := by
      apply UInt8.toNat.inj
      rw [UInt8.toNat_ofNat', UInt8.toNat_ofNat', Nat.mod_mod]
    refine ⟨_, sendMessage_long h rfl hle, ?_, ?_⟩
    · simp only [hlt, iff_false]
      rintro ⟨⟨size, checksum, -, hcount⟩, -⟩
      have hbyte := size.toNat_lt
      omega
    · intro _
      constructor
      · omega
      · rw [hsize]
        rfl

/-- The request for the typical scan mode, with its four payload bytes, and one of 256 bytes, of
which one is written. -/
theorem request_packet_iff_typical :
    (∃ bytes, (ofPayload 0x84 [0x7C, 0x00, 0x00, 0x00]).sendMessage = some bytes ∧
      Packet 0x84 [0x7C, 0x00, 0x00, 0x00] bytes) ∧
    (ofPayload 0x84 (List.replicate 256 0x7C)).sendMessage = some [0xA5, 0x84, 0x00, 0x7C] := by
  constructor
  · obtain ⟨bytes, hbytes, hiff, -⟩ := request_packet_iff [0x7C, 0x00, 0x00, 0x00]
      (show (ofPayload 0x84 [0x7C, 0x00, 0x00, 0x00]).hasPayload = true by decide)
    exact ⟨bytes, hbytes, hiff.mpr (by decide)⟩
  · obtain ⟨bytes, hbytes, -, hlong⟩ := request_packet_iff (List.replicate 256 0x7C)
      (show (ofPayload 0x84 (List.replicate 256 0x7C)).hasPayload = true by decide)
    rw [List.length_replicate] at hlong
    rw [hbytes, (hlong (le_refl 256)).2]
    rfl

end ProtocolMessage

/-- A request whose size fits its size field. -/
structure Request where
  cmd : UInt8
  payload : List UInt8
  size_lt : payload.length < 256

namespace Request

/-- The request as a message. -/
def message (r : Request) : ProtocolMessage := .ofPayload r.cmd r.payload

/-- What the request tells the device: a command without payload flag has no payload. -/
def content (r : Request) : UInt8 × List UInt8 :=
  (r.cmd, if r.message.hasPayload then r.payload else [])

/-- The bytes of a request. -/
def bytes (r : Request) : List UInt8 :=
  if r.message.hasPayload then
    r.message.head ++ (r.payload ++ [xorAll (r.message.head ++ r.payload)])
  else [cmdSyncByte, r.cmd]

theorem sendMessage_eq (r : Request) : r.message.sendMessage = some r.bytes := by
  rw [bytes]
  cases h : r.message.hasPayload with
  | true => exact ProtocolMessage.sendMessage_short h rfl r.size_lt
  | false => exact ProtocolMessage.sendMessage_command h

/-- A request is read off the front of the bytes. -/
theorem bytes_append_inj {r s : Request} {bs cs : List UInt8}
    (h : r.bytes ++ bs = s.bytes ++ cs) : r.content = s.content ∧ bs = cs := by
  have hcmd : r.cmd = s.cmd := by
    have h1 := congrArg (·[1]?) h
    rw [bytes, bytes] at h1
    split at h1 <;> split at h1 <;> exact Option.some.inj h1
  have hflag : r.message.hasPayload = s.message.hasPayload := by
    change decide (r.cmd &&& _ ≠ 0) = decide (s.cmd &&& _ ≠ 0)
    rw [hcmd]
  rw [content, content, hcmd, hflag]
  rw [bytes, bytes, hflag] at h
  cases hpayload : s.message.hasPayload with
  | false =>
    rw [hpayload, hcmd] at h
    exact ⟨rfl, List.append_cancel_left h⟩
  | true =>
    rw [hpayload, if_pos rfl, if_pos rfl] at h
    simp only [List.append_assoc] at h
    have hhead := List.append_inj h rfl
    have hlen : r.payload.length = s.payload.length := by
      have hsize : UInt8.ofNat r.payload.length = UInt8.ofNat s.payload.length :=
        Option.some.inj (congrArg (·[2]?) hhead.1)
      have hnat := congrArg UInt8.toNat hsize
      rwa [UInt8.toNat_ofNat', UInt8.toNat_ofNat', Nat.mod_eq_of_lt r.size_lt,
        Nat.mod_eq_of_lt s.size_lt] at hnat
    have hboth := List.append_inj hhead.2 hlen
    rw [hboth.1]
    exact ⟨rfl, (List.append_inj hboth.2 rfl).2⟩

end Request

/-- The bytes a sequence of requests puts on the wire. -/
def sendAll : List Request → Option (List UInt8)
  | [] => some []
  | r :: rs => do
    let bytes ← r.message.sendMessage
    let rest ← sendAll rs
    return bytes ++ rest

theorem sendAll_eq (rs : List Request) : sendAll rs = some (rs.flatMap Request.bytes) := by
  induction rs with
  | nil => rfl
  | cons r rs ih =>
    simp only [sendAll, r.sendMessage_eq, ih, Option.bind_eq_bind, Option.bind_some,
      Option.pure_def, List.flatMap_cons]

/-- Any sequence of requests of less than 256 payload bytes each is written, and its bytes tell the
requests: another such sequence with the same bytes has the same commands and payloads in the same
order. -/
theorem requests_unambiguous (rs : List Request) : ∃ bytes, sendAll rs = some bytes ∧
    ∀ ss, sendAll ss = some bytes → rs.map Request.content = ss.map Request.content := by
  refine ⟨_, sendAll_eq rs, ?_⟩
  intro ss hss
  rw [sendAll_eq, Option.some.injEq] at hss
  have hne : ∀ r : Request, r.bytes ≠ [] := by
    intro r
    rw [Request.bytes]
    split <;> exact List.cons_ne_nil _ _
  induction rs generalizing ss with
  | nil =>
    cases ss with
    | nil => rfl
    | cons s ss =>
      rw [List.flatMap_cons, List.flatMap_nil, List.append_eq_nil_iff] at hss
      exact absurd hss.1 (hne s)
  | cons r rs ih =>
    cases ss with
    | nil =>
      rw [List.flatMap_cons, List.flatMap_nil, eq_comm, List.append_eq_nil_iff] at hss
      exact absurd hss.1 (hne r)
    | cons s ss =>
      rw [List.flatMap_cons, List.flatMap_cons] at hss
      have hinj := Request.bytes_append_inj hss
      rw [List.map_cons, List.map_cons, hinj.1, ih ss hinj.2]

end MonitoringRobot.Lidar
