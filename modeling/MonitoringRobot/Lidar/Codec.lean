import MonitoringRobot.Base.Bytes
import MonitoringRobot.Base.Machine

/-!
# The wire protocol of the laser scanner

`RPLidarProtocolCodec` (`edge_packages/src/rplidar_ros/sdk/src/sl_lidarprotocol_codec.cpp`)
takes answers out of the byte stream one byte at a time and writes requests. An answer is
the header of `sl_lidar_protocol.h` and its payload; in loop mode one header serves any number
of payloads. The listener receives a copy of the message, which holds the payload and not the
rest of the reused buffer. A buffer of no bytes is the null pointer here.
-/

namespace MonitoringRobot.Lidar
open MonitoringRobot.Base MonitoringRobot.Base.Machine

/-- `SL_LIDAR_CMD_SYNC_BYTE`. -/
def cmdSyncByte : UInt8 := 0xA5

/-- `SL_LIDAR_CMDFLAG_HAS_PAYLOAD`. -/
def cmdFlagHasPayload : UInt8 := 0x80

/-- `SL_LIDAR_ANS_SYNC_BYTE1`. -/
def ansSyncByte1 : UInt8 := 0xA5

/-- `SL_LIDAR_ANS_SYNC_BYTE2`. -/
def ansSyncByte2 : UInt8 := 0x5A

/-- `SL_LIDAR_ANS_PKTFLAG_LOOP`. -/
def ansPktFlagLoop : Nat := 0x1

/-- `SL_LIDAR_ANS_HEADER_SIZE_MASK`. -/
def ansHeaderSizeMask : Nat := 0x3FFFFFFF

/-- `SL_LIDAR_ANS_HEADER_SUBTYPE_SHIFT`. -/
def ansHeaderSubtypeShift : Nat := 30

/-- `ProtocolMessage`: the payload's length, its type, and the buffer it lies in. -/
structure ProtocolMessage where
  len : Nat
  cmd : UInt8
  data : List UInt8
deriving DecidableEq, Repr

/-- The copy constructor: the new buffer holds the payload only. -/
def ProtocolMessage.copy (m : ProtocolMessage) : ProtocolMessage :=
  { m with data := m.data.take m.len }

/-- `cleanData`. -/
def ProtocolMessage.cleanData (m : ProtocolMessage) : ProtocolMessage :=
  if m.data = [] then m else { m with len := 1, data := [] }

/-- `fillData(NULL, size)` over `_changeBufSize`: a buffer that is not twice too large is
kept. A new buffer is not initialised; it reads as zeros here. -/
def ProtocolMessage.fillData (m : ProtocolMessage) (size : Nat) : ProtocolMessage :=
  if size = m.data.length ∨ size < m.data.length ∧ m.data.length / 2 < size then
    { m with len := size }
  else { m with len := size, data := List.replicate size 0 }

@[simp] theorem ProtocolMessage.fillData_len (m : ProtocolMessage) (n : Nat) :
    (m.fillData n).len = n := by
  unfold fillData
  split <;> rfl

theorem ProtocolMessage.le_length_fillData (m : ProtocolMessage) (n : Nat) :
    n ≤ (m.fillData n).data.length := by
  unfold fillData
  split
  · next h =>
    dsimp only
    omega
  · exact Nat.le_of_eq (List.length_replicate ..).symm

/-- A message with all of its payload and nothing else. -/
structure ProtocolMessage.Complete (m : ProtocolMessage) : Prop where
  pos : 0 < m.len
  lt : m.len < 2 ^ 30
  all : m.data.length = m.len

/-- Store one byte of a number in memory, lowest byte first. -/
def setByte (n i : Nat) (b : UInt8) : Nat :=
  n % 256 ^ i + b.toNat * 256 ^ i + n / 256 ^ (i + 1) * 256 ^ (i + 1)

/-- The `STATUS_` values, without the loop flag. -/
inductive WorkingStatus where
  | waitSync1
  | waitSync2
  | waitSizeFlag
  | waitType
  | recvPayload
deriving DecidableEq, Repr

/-- The decoder's members. `loopMode` is `STATUS_LOOP_MODE_FLAG` in `_working_states`. -/
structure RPLidarProtocolCodec where
  decodingMessage : ProtocolMessage
  workingStates : WorkingStatus
  loopMode : Bool
  rxPos : Nat
deriving DecidableEq, Repr

namespace RPLidarProtocolCodec

/-- `onDecodeReset`, which `exitLoopMode` is too. -/
def onDecodeReset (c : RPLidarProtocolCodec) : RPLidarProtocolCodec :=
  { decodingMessage := c.decodingMessage.cleanData
    workingStates := .waitSync1
    loopMode := false
    rxPos := 0 }

/-- The constructor, which resets. -/
def init : RPLidarProtocolCodec :=
  onDecodeReset
    { decodingMessage := { len := 0, cmd := 0, data := [] }
      workingStates := .waitSync1
      loopMode := false
      rxPos := 0 }

/-- The fourth byte of the size and the flags is in place. -/
def endSizeFlag (c : RPLidarProtocolCodec) (len : Nat) : RPLidarProtocolCodec :=
  { decodingMessage := { c.decodingMessage with len := len }.fillData (len &&& ansHeaderSizeMask)
    workingStates := .waitType
    loopMode := (len >>> ansHeaderSubtypeShift) &&& ansPktFlagLoop ≠ 0
    rxPos := 0 }

/-- One pass of the loop of `onDecodeData`, with the message the listener receives. -/
def onDecodeByte (c : RPLidarProtocolCodec) (currentByte : UInt8) :
    RPLidarProtocolCodec × List ProtocolMessage :=
  match c.workingStates with
  | .waitSync1 =>
    if currentByte = ansSyncByte1 then
      ({ c with workingStates := .waitSync2, loopMode := false }, [])
    else (c, [])
  | .waitSync2 =>
    if currentByte = ansSyncByte2 then
      ({ c with workingStates := .waitSizeFlag, loopMode := false, rxPos := 0 }, [])
    else ({ c with workingStates := .waitSync1, loopMode := false }, [])
  | .waitSizeFlag =>
    let len := setByte c.decodingMessage.len c.rxPos currentByte
    if c.rxPos + 1 = 4 then (c.endSizeFlag len, [])
    else ({ c with decodingMessage := { c.decodingMessage with len := len },
                   rxPos := c.rxPos + 1 }, [])
  | .waitType =>
    let message := { c.decodingMessage with cmd := currentByte }
    -- a packet without payload is not reported
    if message.len = 0 then
      ({ c with decodingMessage := message, workingStates := .waitSync1, loopMode := false }, [])
    else ({ c with decodingMessage := message, workingStates := .recvPayload }, [])
  | .recvPayload =>
    let message :=
      { c.decodingMessage with data := c.decodingMessage.data.set c.rxPos currentByte }
    if c.rxPos + 1 = message.len then
      if c.loopMode then ({ c with decodingMessage := message, rxPos := 0 }, [message.copy])
      else ({ decodingMessage := message, workingStates := .waitSync1, loopMode := false,
              rxPos := c.rxPos + 1 }, [message.copy])
    else ({ c with decodingMessage := message, rxPos := c.rxPos + 1 }, [])

/-- `onDecodeData`: the bytes of one buffer in order. -/
def onDecodeData (c : RPLidarProtocolCodec) (buffer : List UInt8) :
    RPLidarProtocolCodec × List ProtocolMessage :=
  emit onDecodeByte c buffer

/-! ### Answers on the wire -/

end RPLidarProtocolCodec

/-- An answer as the device sends it: `sl_lidar_ans_header_t` and the payload. Its size fits
the 30 bits of the size field. -/
structure Answer where
  type : UInt8
  subtype : Fin 4
  payload : List UInt8
  nonempty : 0 < payload.length
  size_lt : payload.length < 2 ^ 30

namespace Answer

/-- `size_q30_subtype` and `type`. -/
def head (a : Answer) : List UInt8 :=
  toLE 4 (a.payload.length + 2 ^ ansHeaderSubtypeShift * a.subtype.val) ++ [a.type]

/-- The header, without the payload. -/
def header (a : Answer) : List UInt8 := ansSyncByte1 :: ansSyncByte2 :: a.head

/-- All bytes of the answer. -/
def bytes (a : Answer) : List UInt8 := a.header ++ a.payload

/-- Whether the header opens loop mode. -/
def isLoop (a : Answer) : Bool := a.subtype.val % 2 = 1

/-- The message the listener receives. -/
def message (a : Answer) : ProtocolMessage :=
  { len := a.payload.length, cmd := a.type, data := a.payload }

end Answer

/-- The number of first sync bytes a byte string ends with. -/
def trailing (bs : List UInt8) : Nat := (bs.reverse.takeWhile (· = ansSyncByte1)).length

/-- A stretch of the stream: noise in which no header starts, and an answer of one message. -/
structure Stretch where
  noise : List UInt8
  answer : Answer
  no_header : ¬ [ansSyncByte1, ansSyncByte2] <:+: noise
  single : answer.isLoop = false

namespace Stretch

/-- All bytes of the stretch. -/
def bytes (s : Stretch) : List UInt8 := s.noise ++ s.answer.bytes

/-- The noise ends with an even number of first sync bytes. -/
def found (s : Stretch) : Bool := trailing s.noise % 2 = 0

theorem found_iff {s : Stretch} : s.found = true ↔ trailing s.noise % 2 = 0 := by
  rw [found, decide_eq_true_iff]

end Stretch

namespace RPLidarProtocolCodec

/-- The decoder looks for the first byte of a header. -/
def Idle (c : RPLidarProtocolCodec) : Prop := c.workingStates = .waitSync1

/-- The decoder has the payload bytes `got` of a message of type `cmd` and `len` bytes. -/
structure Receiving (len : Nat) (cmd : UInt8) (loopMode : Bool) (got : List UInt8)
    (c : RPLidarProtocolCodec) : Prop where
  status : c.workingStates = .recvPayload
  len_eq : c.decodingMessage.len = len
  cmd_eq : c.decodingMessage.cmd = cmd
  loop_eq : c.loopMode = loopMode
  pos_eq : c.rxPos = got.length
  got_lt : got.length < len
  room : len ≤ c.decodingMessage.data.length
  got_eq : c.decodingMessage.data.take got.length = got

variable {c : RPLidarProtocolCodec} {len : Nat} {cmd : UInt8} {loopMode : Bool}
  {got : List UInt8}

theorem idle_onDecodeReset (c : RPLidarProtocolCodec) : c.onDecodeReset.Idle := rfl

theorem Receiving.take_set (h : Receiving len cmd loopMode got c) (b : UInt8) :
    (c.decodingMessage.data.set c.rxPos b).take (got.length + 1) = got ++ [b] := by
  have hlt := h.got_lt
  have hroom := h.room
  rw [h.pos_eq, List.take_add_one, List.take_set_of_le (Nat.le_refl _), h.got_eq,
    List.getElem?_set_self (by omega)]
  rfl

theorem Receiving.more (h : Receiving len cmd loopMode got c) {b : UInt8}
    (hb : got.length + 1 < len) :
    Receiving len cmd loopMode (got ++ [b]) (c.onDecodeByte b).1 ∧
      (c.onDecodeByte b).2 = [] := by
  have hne : ¬ c.rxPos + 1 = c.decodingMessage.len := by
    rw [h.pos_eq, h.len_eq]
    omega
  have hstep : c.onDecodeByte b =
      ({ c with
          decodingMessage :=
            { c.decodingMessage with data := c.decodingMessage.data.set c.rxPos b }
          rxPos := c.rxPos + 1 }, []) := by
    simp only [onDecodeByte, h.status, if_neg hne]
  rw [hstep]
  constructor
  · constructor
    · exact h.status
    · exact h.len_eq
    · exact h.cmd_eq
    · exact h.loop_eq
    · simp only [h.pos_eq, List.length_append, List.length_singleton]
    · rwa [List.length_append, List.length_singleton]
    · rw [List.length_set]
      exact h.room
    · rw [List.length_append, List.length_singleton]
      exact h.take_set b
  · rfl

/-- What the decoder is left in behind a message: in loop mode it receives the next one. -/
def After (len : Nat) (cmd : UInt8) (loopMode : Bool) (c : RPLidarProtocolCodec) : Prop :=
  if loopMode then Receiving len cmd true [] c else c.Idle

theorem Receiving.last (h : Receiving len cmd loopMode got c) {b : UInt8}
    (hb : got.length + 1 = len) :
    After len cmd loopMode (c.onDecodeByte b).1 ∧
      (c.onDecodeByte b).2 = [{ len := len, cmd := cmd, data := got ++ [b] }] := by
  have heq : c.rxPos + 1 = c.decodingMessage.len := by rw [h.pos_eq, h.len_eq, hb]
  have hcopy : ({ c.decodingMessage with
      data := c.decodingMessage.data.set c.rxPos b } : ProtocolMessage).copy =
      { len := len, cmd := cmd, data := got ++ [b] } := by
    rw [ProtocolMessage.copy, h.len_eq, h.cmd_eq, ← hb, h.take_set]
  cases hl : loopMode with
  | true =>
    have hloop : c.loopMode = true := by rw [h.loop_eq, hl]
    simp only [onDecodeByte, h.status, if_pos heq, if_pos hloop, hcopy, After, if_true, and_true]
    constructor
    · rfl
    · exact h.len_eq
    · exact h.cmd_eq
    · exact hloop
    · rfl
    · rw [List.length_nil]
      omega
    · rw [List.length_set]
      exact h.room
    · rfl
  | false =>
    have hloop : ¬ c.loopMode = true := by
      rw [h.loop_eq, hl]
      exact Bool.false_ne_true
    simp only [onDecodeByte, h.status, if_pos heq, if_neg hloop, hcopy, After]
    exact ⟨rfl, trivial⟩

theorem Receiving.rest (h : Receiving len cmd loopMode got c) {bs : List UInt8}
    (hbs : got.length + bs.length = len) :
    After len cmd loopMode (emit onDecodeByte c bs).1 ∧
      (emit onDecodeByte c bs).2 = [{ len := len, cmd := cmd, data := got ++ bs }] := by
  induction bs generalizing c got with
  | nil =>
    have hlt := h.got_lt
    rw [List.length_nil] at hbs
    omega
  | cons b bs ih =>
    rw [List.length_cons] at hbs
    rw [emit_cons]
    by_cases hlast : bs = []
    · subst hlast
      have hb := h.last (b := b) (by simpa using hbs)
      exact ⟨hb.1, by rw [hb.2, emit_nil, List.append_nil]⟩
    · have hpos := List.length_pos_iff.mpr hlast
      have hb := h.more (b := b) (by omega)
      have hrest := ih hb.1 (by
        rw [List.length_append, List.length_singleton]
        omega)
      rw [hb.2, hrest.2, List.nil_append, List.append_assoc]
      exact ⟨hrest.1, rfl⟩

/-- The decoder with `k` of the size and flag bytes in place. -/
def sizing (c : RPLidarProtocolCodec) (k len : Nat) : RPLidarProtocolCodec :=
  { c with decodingMessage := { c.decodingMessage with len := len }, rxPos := k }

/-- The first three of the size and flag bytes are stored. -/
theorem sizing_more (hs : c.workingStates = .waitSizeFlag) {k : Nat} (hk : k + 1 < 4)
    (len : Nat) (b : UInt8) :
    (c.sizing k len).onDecodeByte b = (c.sizing (k + 1) (setByte len k b), []) := by
  have hne : ¬ k + 1 = 4 := by omega
  simp only [onDecodeByte, sizing, hs, if_neg hne]

theorem sizing_last (hs : c.workingStates = .waitSizeFlag) (len : Nat) (b : UInt8) :
    (c.sizing 3 len).onDecodeByte b = (c.endSizeFlag (setByte len 3 b), []) := by
  simp only [onDecodeByte, sizing, hs, if_true, endSizeFlag]

/-- Four bytes stored from the lowest on replace the low word. -/
theorem setByte_word (l : Nat) (a b c d : UInt8) :
    setByte (setByte (setByte (setByte l 0 a) 1 b) 2 c) 3 d % 2 ^ 32 = ofLE [a, b, c, d] := by
  have ha := a.toNat_lt
  have hb := b.toNat_lt
  have hc := c.toNat_lt
  have hd := d.toNat_lt
  simp only [setByte, ofLE, Nat.reducePow, Nat.reduceAdd] at ha hb hc hd ⊢
  generalize a.toNat = a' at *
  generalize b.toNat = b' at *
  generalize c.toNat = c' at *
  generalize d.toNat = d' at *
  omega

theorem emit_sizeFlag (hs : c.workingStates = .waitSizeFlag) (hp : c.rxPos = 0)
    {n : Nat} (hn : n < 2 ^ 32) : ∃ len, len % 2 ^ 32 = n ∧
      emit onDecodeByte c (toLE 4 n) = (c.endSizeFlag len, []) := by
  have hvalue := ofLE_toLE_of_lt (k := 4) hn
  simp only [toLE] at hvalue ⊢
  refine ⟨_, (setByte_word c.decodingMessage.len _ _ _ _).trans hvalue, ?_⟩
  have hc : c = c.sizing 0 c.decodingMessage.len := by rw [sizing, ← hp]
  calc emit onDecodeByte c _ = emit onDecodeByte (c.sizing 0 c.decodingMessage.len) _ :=
        congrArg (fun d ↦ emit onDecodeByte d _) hc
    _ = (c.endSizeFlag _, []) := by
        rw [emit_cons_silent _ (sizing_more hs (by omega) _ _),
          emit_cons_silent _ (sizing_more hs (by omega) _ _),
          emit_cons_silent _ (sizing_more hs (by omega) _ _),
          emit_cons_silent _ (sizing_last hs _ _), emit_nil]

/-- The size field holds 30 bits, and bit 30 opens loop mode. -/
theorem endSizeFlag_eq {n s l : Nat} (hn : n < 2 ^ 30) (hl : l % 2 ^ 32 = n + 2 ^ 30 * s)
    (c : RPLidarProtocolCodec) :
    c.endSizeFlag l =
      { decodingMessage := { c.decodingMessage with len := l }.fillData n
        workingStates := .waitType
        loopMode := s % 2 = 1
        rxPos := 0 } := by
  have hmask : l &&& ansHeaderSizeMask = n := by
    rw [show ansHeaderSizeMask = 2 ^ 30 - 1 from rfl, Nat.and_two_pow_sub_one_eq_mod]
    omega
  have hflag : (l >>> ansHeaderSubtypeShift) &&& ansPktFlagLoop = s % 2 := by
    rw [show ansPktFlagLoop = 2 ^ 1 - 1 from rfl, Nat.and_two_pow_sub_one_eq_mod,
      Nat.shiftRight_eq_div_pow, ansHeaderSubtypeShift]
    omega
  rw [endSizeFlag, hmask, hflag]
  congr 1
  rcases Nat.mod_two_eq_zero_or_one s with h | h <;> simp [h]

theorem onDecodeByte_type (hs : c.workingStates = .waitType)
    (hlen : c.decodingMessage.len = len) (hpos : 0 < len) (b : UInt8) : c.onDecodeByte b =
    ({ c with
        decodingMessage := { c.decodingMessage with cmd := b }
        workingStates := .recvPayload }, []) := by
  have hne : ¬ c.decodingMessage.len = 0 := by omega
  simp only [onDecodeByte, hs, if_neg hne]

/-- Behind the two sync bytes, the rest of a header leads to its payload. -/
theorem emit_head (hs : c.workingStates = .waitSizeFlag) (hp : c.rxPos = 0) (a : Answer) :
    Receiving a.payload.length a.type a.isLoop [] (emit onDecodeByte c a.head).1 ∧
      (emit onDecodeByte c a.head).2 = [] := by
  have hsize := a.size_lt
  have hsub := a.subtype.isLt
  obtain ⟨l, hl, hemit⟩ := emit_sizeFlag hs hp
    (n := a.payload.length + 2 ^ ansHeaderSubtypeShift * a.subtype.val) (by
      rw [ansHeaderSubtypeShift]
      omega)
  have hend := endSizeFlag_eq hsize hl c
  rw [Answer.head, emit_append, hemit, hend, List.nil_append]
  rw [emit_cons_silent _ (onDecodeByte_type rfl (ProtocolMessage.fillData_len _ _) a.nonempty _),
    emit_nil]
  constructor
  · constructor
    · rfl
    · exact ProtocolMessage.fillData_len _ _
    · rfl
    · rfl
    · rfl
    · exact a.nonempty
    · exact ProtocolMessage.le_length_fillData _ _
    · rfl
  · rfl

theorem Idle.sync1 (h : c.Idle) : c.onDecodeByte ansSyncByte1 =
    ({ c with workingStates := .waitSync2, loopMode := false }, []) := by
  have hs : c.workingStates = .waitSync1 := h
  simp only [onDecodeByte, hs, if_true]

theorem onDecodeByte_sync2 (hs : c.workingStates = .waitSync2) : c.onDecodeByte ansSyncByte2 =
    ({ c with workingStates := .waitSizeFlag, loopMode := false, rxPos := 0 }, []) := by
  simp only [onDecodeByte, hs, if_true]

/-- A header read by an idle decoder leads to its payload. -/
theorem Idle.header (h : c.Idle) (a : Answer) :
    Receiving a.payload.length a.type a.isLoop [] (emit onDecodeByte c a.header).1 ∧
      (emit onDecodeByte c a.header).2 = [] := by
  rw [Answer.header, emit_cons_silent _ h.sync1, emit_cons_silent _ (onDecodeByte_sync2 rfl)]
  exact emit_head rfl rfl a

/-- An idle decoder takes a whole answer out of the stream. -/
theorem Idle.answer (h : c.Idle) {a : Answer} (ha : a.isLoop = false) :
    (emit onDecodeByte c a.bytes).1.Idle ∧ (emit onDecodeByte c a.bytes).2 = [a.message] := by
  have hheader := h.header a
  have hpayload := hheader.1.rest (Nat.zero_add a.payload.length)
  rw [Answer.bytes, emit_append, hheader.2, hpayload.2]
  rw [ha] at hpayload
  exact ⟨hpayload.1, rfl⟩

/-! ### Noise between the answers -/

theorem trailing_concat_self (bs : List UInt8) :
    trailing (bs ++ [ansSyncByte1]) = trailing bs + 1 := by
  simp [trailing]

theorem trailing_concat_of_ne {b : UInt8} (hb : b ≠ ansSyncByte1) (bs : List UInt8) :
    trailing (bs ++ [b]) = 0 := by
  simp [trailing, hb]

theorem exists_concat_of_trailing {bs : List UInt8} (h : trailing bs ≠ 0) :
    ∃ start, bs = start ++ [ansSyncByte1] := by
  cases bs using List.reverseRecOn with
  | nil => exact absurd rfl h
  | append_singleton start b =>
    by_cases hb : b = ansSyncByte1
    · exact ⟨start, by rw [hb]⟩
    · exact absurd (trailing_concat_of_ne hb start) h

/-- Without the two sync bytes in a row, a byte string opens no header. An idle decoder is
idle behind it when it ends with an even number of first sync bytes, and expects the second
sync byte when that number is odd. -/
theorem Idle.noise (h : c.Idle) {bs : List UInt8}
    (hbs : ¬ [ansSyncByte1, ansSyncByte2] <:+: bs) :
    (emit onDecodeByte c bs).2 = [] ∧ (emit onDecodeByte c bs).1.workingStates =
      if trailing bs % 2 = 0 then .waitSync1 else .waitSync2 := by
  induction bs using List.reverseRecOn with
  | nil => exact ⟨rfl, h⟩
  | append_singleton bs b ih =>
    have hbs' : ¬ [ansSyncByte1, ansSyncByte2] <:+: bs :=
      fun hi ↦ hbs (hi.trans (List.prefix_append bs [b]).isInfix)
    obtain ⟨hout, hstate⟩ := ih hbs'
    rw [emit_concat, hout, List.nil_append]
    by_cases hb : b = ansSyncByte1
    · rw [hb, trailing_concat_self]
      by_cases heven : trailing bs % 2 = 0
      · rw [if_pos heven] at hstate
        rw [Idle.sync1 hstate, if_neg (by omega)]
        exact ⟨rfl, rfl⟩
      · rw [if_neg heven] at hstate
        have hne : ¬ ansSyncByte1 = ansSyncByte2 := by decide
        rw [if_pos (by omega)]
        simp only [onDecodeByte, hstate, if_neg hne, and_self]
    · rw [trailing_concat_of_ne hb, if_pos (Nat.zero_mod 2)]
      by_cases heven : trailing bs % 2 = 0
      · rw [if_pos heven] at hstate
        simp only [onDecodeByte, hstate, if_neg hb, and_self]
      · rw [if_neg heven] at hstate
        have hne : ¬ b = ansSyncByte2 := by
          intro hb2
          have htrail : trailing bs ≠ 0 := by omega
          obtain ⟨start, rfl⟩ := exists_concat_of_trailing htrail
          apply hbs
          rw [hb2, List.append_assoc]
          exact List.infix_append' start [ansSyncByte1, ansSyncByte2] []
        simp only [onDecodeByte, hstate, if_neg hne, and_self]

/-- Bytes without a first sync byte pass an idle decoder unnoticed. -/
theorem Idle.skip (h : c.Idle) {bs : List UInt8} (hbs : ansSyncByte1 ∉ bs) :
    (emit onDecodeByte c bs).1.Idle ∧ (emit onDecodeByte c bs).2 = [] := by
  have hinfix : ¬ [ansSyncByte1, ansSyncByte2] <:+: bs :=
    fun hi ↦ hbs (hi.subset (List.mem_cons_self ..))
  have hnoise := h.noise hinfix
  have htrail : trailing bs = 0 := by
    by_contra hne
    obtain ⟨start, hstart⟩ := exists_concat_of_trailing hne
    exact hbs (hstart ▸ List.mem_append_right start (List.mem_singleton_self _))
  rw [htrail] at hnoise
  exact ⟨hnoise.2, hnoise.1⟩

/-- A decoder that waits for the second sync byte misses the answer that starts now. -/
theorem hidden_answer (hs : c.workingStates = .waitSync2) {a : Answer}
    (ha : ansSyncByte1 ∉ a.head ++ a.payload) :
    (emit onDecodeByte c a.bytes).1.Idle ∧ (emit onDecodeByte c a.bytes).2 = [] := by
  have hne : ¬ ansSyncByte1 = ansSyncByte2 := by decide
  have hsync : c.onDecodeByte ansSyncByte1 =
      ({ c with workingStates := .waitSync1, loopMode := false }, []) := by
    simp only [onDecodeByte, hs, if_neg hne]
  rw [Answer.bytes, Answer.header, List.cons_append, emit_cons_silent _ hsync]
  refine Idle.skip (c := { c with workingStates := .waitSync1, loopMode := false }) rfl ?_
  rw [List.cons_append, List.mem_cons]
  rintro (hm | hm)
  · exact hne hm
  · exact ha hm

/-- An idle decoder takes the answer of a stretch out exactly when it is found. -/
theorem Idle.stretch (h : c.Idle) {s : Stretch}
    (hs : s.found ∨ ansSyncByte1 ∉ s.answer.head ++ s.answer.payload) :
    (emit onDecodeByte c s.bytes).1.Idle ∧
      (emit onDecodeByte c s.bytes).2 = if s.found then [s.answer.message] else [] := by
  have hnoise := h.noise s.no_header
  rw [Stretch.bytes, emit_append, hnoise.1, List.nil_append]
  dsimp only
  by_cases hfound : s.found
  · rw [if_pos hfound]
    rw [if_pos (Stretch.found_iff.mp hfound)] at hnoise
    exact Idle.answer hnoise.2 s.single
  · rw [if_neg hfound]
    rw [if_neg (mt Stretch.found_iff.mpr hfound)] at hnoise
    exact hidden_answer hnoise.2 (hs.resolve_left hfound)

/-- The buffers put out what their bytes put out one after the other. -/
theorem emit_onDecodeData (c : RPLidarProtocolCodec) (buffers : List (List UInt8)) :
    emit onDecodeData c buffers = emit onDecodeByte c buffers.flatten :=
  emit_flatten c buffers

/-- From any state a reset was called in, and however the channel cuts the stream into
buffers, the listener receives exactly the answers of the stretches whose noise ends with an
even number of first sync bytes, once each and in order. An odd number hides the answer
behind it, since the second sync byte is compared once and not looked at as a first one. -/
theorem decode_stream (c : RPLidarProtocolCodec) {stream : List Stretch}
    (hstream : ∀ s ∈ stream, s.found ∨ ansSyncByte1 ∉ s.answer.head ++ s.answer.payload)
    {buffers : List (List UInt8)} (hbuffers : buffers.flatten = stream.flatMap Stretch.bytes) :
    (emit onDecodeData c.onDecodeReset buffers).2 =
      (stream.filter (·.found)).map (·.answer.message) := by
  rw [emit_onDecodeData, hbuffers,
    (emit_flatMap (P := Idle) (fun s hs t ht ↦ ht.stretch (hstream s hs))
      (idle_onDecodeReset c)).2]
  clear hstream hbuffers
  induction stream with
  | nil => rfl
  | cons s stream ih =>
    rw [List.flatMap_cons, ih, List.filter_cons]
    cases s.found <;> rfl

/-- A health answer of three bytes. -/
def healthAnswer : Answer where
  type := 0x06
  subtype := 0
  payload := [0x00, 0x00, 0x00]
  nonempty := by decide
  size_lt := by decide

/-- A stray first sync byte hides the first of two answers. -/
theorem decode_stream_stray :
    (emit onDecodeData init.onDecodeReset
      [[0xA5, 0xA5, 0x5A, 0x03], [0x00, 0x00, 0x00, 0x06, 0x00, 0x00, 0x00, 0xA5],
        [0x5A, 0x03, 0x00, 0x00, 0x00, 0x06, 0x00, 0x00, 0x00]]).2 =
      [{ len := 3, cmd := 0x06, data := [0x00, 0x00, 0x00] }] := by
  have hstream : ∀ s ∈ ([⟨[0xA5], healthAnswer, by decide, rfl⟩,
      ⟨[], healthAnswer, by decide, rfl⟩] : List Stretch),
      s.found ∨ ansSyncByte1 ∉ s.answer.head ++ s.answer.payload := by decide
  exact decode_stream init hstream (by decide)

/-! ### Loop mode -/

/-- In loop mode the payload bytes are handed over in pieces of the announced size. -/
theorem Receiving.loop (h : Receiving len cmd true [] c) (bs : List UInt8) :
    Receiving len cmd true (remainder len bs) (emit onDecodeByte c bs).1 ∧
      (emit onDecodeByte c bs).2 =
        (pieces len bs).map fun piece ↦ { len := len, cmd := cmd, data := piece } := by
  induction bs using List.reverseRecOn with
  | nil =>
    have hpieces : pieces len ([] : List UInt8) = [] := by simp [pieces]
    have hrest : remainder len ([] : List UInt8) = [] := by simp [remainder]
    rw [hpieces, hrest]
    exact ⟨h, rfl⟩
  | append_singleton bs b ih =>
    obtain ⟨hstate, hout⟩ := ih
    rw [emit_concat, hout]
    have hlt := hstate.got_lt
    by_cases hlast : (remainder len bs).length + 1 = len
    · have hpieces := pieces_concat_of_eq b hlast
      have hstep := hstate.last hlast (b := b)
      rw [hpieces.1, hpieces.2, hstep.2, List.map_append]
      exact ⟨hstep.1, rfl⟩
    · have hpieces := pieces_concat_of_lt (n := len) (l := bs) b (by omega)
      have hstep := hstate.more (b := b) (by omega)
      rw [hpieces.1, hpieces.2, hstep.2, List.append_nil]
      exact ⟨hstep.1, rfl⟩

/-- A loop header, and any bytes behind it until the next reset: the listener receives them
in pieces of the size in the header, whatever they contain. -/
theorem decode_loop (c : RPLidarProtocolCodec) {a : Answer} (ha : a.isLoop = true)
    {bs : List UInt8} {buffers : List (List UInt8)}
    (hbuffers : buffers.flatten = a.header ++ bs) :
    (emit onDecodeData c.onDecodeReset buffers).2 =
      (pieces a.payload.length bs).map fun piece ↦
        { len := a.payload.length, cmd := a.type, data := piece } := by
  have hheader := (idle_onDecodeReset c).header a
  rw [ha] at hheader
  rw [emit_onDecodeData, hbuffers, emit_append, hheader.2, List.nil_append]
  exact (hheader.1.loop bs).2

/-- A loop answer of five bytes, as a standard scan sends it. -/
def scanAnswer : Answer where
  type := 0x81
  subtype := 1
  payload := [0x01, 0x02, 0x03, 0x04, 0x05]
  nonempty := by decide
  size_lt := by decide

/-- Two payloads behind one header, the first of which looks like a header. -/
theorem decode_loop_scan :
    (emit onDecodeData init.onDecodeReset
      [[0xA5, 0x5A, 0x05, 0x00, 0x00, 0x40, 0x81, 0xA5, 0x5A], [0x01, 0x00, 0x00],
        [0x3E, 0x01, 0x80, 0x00, 0x10, 0x3E]]).2 =
      [{ len := 5, cmd := 0x81, data := [0xA5, 0x5A, 0x01, 0x00, 0x00] },
        { len := 5, cmd := 0x81, data := [0x3E, 0x01, 0x80, 0x00, 0x10] }] := by
  have hbuffers : [[0xA5, 0x5A, 0x05, 0x00, 0x00, 0x40, 0x81, 0xA5, 0x5A], [0x01, 0x00, 0x00],
      [0x3E, 0x01, 0x80, 0x00, 0x10, 0x3E]].flatten = scanAnswer.header ++
        [0xA5, 0x5A, 0x01, 0x00, 0x00, 0x3E, 0x01, 0x80, 0x00, 0x10, 0x3E] := by decide
  exact decode_loop init (by decide) hbuffers

/-! ### Memory safety -/

/-- What the application does with the decoder. -/
inductive Event where
  | onDecodeData (buffer : List UInt8)
  | onDecodeReset

/-- One call. -/
def call (c : RPLidarProtocolCodec) : Event → RPLidarProtocolCodec × List ProtocolMessage
  | .onDecodeData buffer => c.onDecodeData buffer
  | .onDecodeReset => (c.onDecodeReset, [])

/-- Wherever the decoder writes the next byte, there is room for it. -/
structure Safe (c : RPLidarProtocolCodec) : Prop where
  sizeFlag : c.workingStates = .waitSizeFlag → c.rxPos < 4
  type : c.workingStates = .waitType →
    c.rxPos = 0 ∧ c.decodingMessage.len < 2 ^ 30 ∧
      c.decodingMessage.len ≤ c.decodingMessage.data.length
  payload : c.workingStates = .recvPayload →
    c.rxPos < c.decodingMessage.len ∧ c.decodingMessage.len < 2 ^ 30 ∧
      c.decodingMessage.len ≤ c.decodingMessage.data.length

theorem safe_of_sync (h : c.workingStates = .waitSync1 ∨ c.workingStates = .waitSync2) :
    c.Safe := by
  constructor <;> intro hs <;> rw [hs] at h <;> rcases h with h | h <;> cases h

/-- A decoder that receives a payload has room for the next byte. -/
theorem Receiving.safe (h : Receiving len cmd loopMode got c) (hlt : len < 2 ^ 30) :
    c.Safe := by
  constructor
  · intro hs
    rw [h.status] at hs
    cases hs
  · intro hs
    rw [h.status] at hs
    cases hs
  · intro _
    rw [h.pos_eq, h.len_eq]
    exact ⟨h.got_lt, hlt, h.room⟩

theorem After.safe (h : After len cmd loopMode c) (hlt : len < 2 ^ 30) : c.Safe := by
  cases loopMode with
  | true => exact Receiving.safe h hlt
  | false => exact safe_of_sync (Or.inl h)

/-- One byte keeps the decoder safe, and a message it completes is complete. -/
theorem Safe.byte (h : c.Safe) (b : UInt8) :
    (c.onDecodeByte b).1.Safe ∧ ∀ m ∈ (c.onDecodeByte b).2, m.Complete := by
  cases hs : c.workingStates with
  | waitSync1 =>
    by_cases hb : b = ansSyncByte1
    · simp only [onDecodeByte, hs, if_pos hb]
      exact ⟨safe_of_sync (Or.inr rfl), by simp⟩
    · simp only [onDecodeByte, hs, if_neg hb]
      exact ⟨h, by simp⟩
  | waitSync2 =>
    by_cases hb : b = ansSyncByte2
    · simp only [onDecodeByte, hs, if_pos hb]
      refine ⟨?_, by simp⟩
      constructor
      · intro _
        exact Nat.succ_pos 3
      · intro hw
        cases hw
      · intro hw
        cases hw
    · simp only [onDecodeByte, hs, if_neg hb]
      exact ⟨safe_of_sync (Or.inl rfl), by simp⟩
  | waitSizeFlag =>
    have hpos := h.sizeFlag hs
    by_cases hlast : c.rxPos + 1 = 4
    · simp only [onDecodeByte, hs, if_pos hlast, endSizeFlag]
      refine ⟨?_, by simp⟩
      constructor
      · intro hw
        cases hw
      · intro _
        rw [ProtocolMessage.fillData_len, show ansHeaderSizeMask = 2 ^ 30 - 1 from rfl,
          Nat.and_two_pow_sub_one_eq_mod]
        exact ⟨rfl, Nat.mod_lt _ (by omega), ProtocolMessage.le_length_fillData _ _⟩
      · intro hw
        cases hw
    · simp only [onDecodeByte, hs, if_neg hlast]
      refine ⟨?_, by simp⟩
      constructor
      · intro _
        dsimp only
        omega
      · intro hw
        cases hw
      · intro hw
        cases hw
  | waitType =>
    obtain ⟨hpos, hlt, hroom⟩ := h.type hs
    by_cases hlen : c.decodingMessage.len = 0
    · simp only [onDecodeByte, hs, if_pos hlen]
      exact ⟨safe_of_sync (Or.inl rfl), by simp⟩
    · simp only [onDecodeByte, hs, if_neg hlen]
      refine ⟨?_, by simp⟩
      constructor
      · intro hw
        cases hw
      · intro hw
        cases hw
      · intro _
        exact ⟨by dsimp only; omega, hlt, hroom⟩
  | recvPayload =>
    obtain ⟨hpos, hlt, hroom⟩ := h.payload hs
    have hgot : Receiving c.decodingMessage.len c.decodingMessage.cmd c.loopMode
        (c.decodingMessage.data.take c.rxPos) c := by
      have hlen : (c.decodingMessage.data.take c.rxPos).length = c.rxPos := by
        rw [List.length_take]
        omega
      constructor
      · exact hs
      · rfl
      · rfl
      · rfl
      · exact hlen.symm
      · rw [hlen]
        exact hpos
      · exact hroom
      · rw [hlen]
    by_cases hlast : (c.decodingMessage.data.take c.rxPos).length + 1 = c.decodingMessage.len
    · obtain ⟨hafter, hout⟩ := hgot.last hlast (b := b)
      rw [hout]
      refine ⟨hafter.safe hlt, ?_⟩
      intro m hm
      rw [List.mem_singleton.mp hm]
      constructor
      · dsimp only
        omega
      · exact hlt
      · rw [List.length_append, List.length_singleton]
        exact hlast
    · have hlt' := hgot.got_lt
      obtain ⟨hmore, hout⟩ := hgot.more (b := b) (by omega)
      rw [hout]
      exact ⟨hmore.safe hlt, by simp⟩

/-- In any order of buffers and resets, every byte is written inside the memory it belongs
to, and every message the listener receives is complete. -/
theorem decoder_safe (events : List Event) :
    (emit call init events).1.Safe ∧ ∀ m ∈ (emit call init events).2, m.Complete := by
  apply emit_forall (P := Safe) (Q := ProtocolMessage.Complete)
  · exact safe_of_sync (Or.inl rfl)
  · intro c event hsafe
    cases event with
    | onDecodeData buffer => exact emit_forall hsafe (fun d b hd ↦ hd.byte b) buffer
    | onDecodeReset => exact ⟨safe_of_sync (Or.inl rfl), by simp [call]⟩

end RPLidarProtocolCodec

end MonitoringRobot.Lidar
