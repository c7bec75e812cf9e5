import Mathlib.Data.List.Chain
import MonitoringRobot.Lidar.Angles

/-!
# Dense capsules

The dense and the ultra-dense scan modes
(`edge_packages/src/rplidar_ros/sdk/src/dataunpacker/unpacker/handler_capsules.cpp:639-794`,
`:852-1047`) spread the samples of a frame like the other capsule formats, but drop a frame
whose start angle is too far from the one before, and mark the end of a turn by an edge of the
sync condition. Their `reset` leaves the frame before in place. Timestamps are left out.
-/

namespace MonitoringRobot.Lidar
open MonitoringRobot.Base MonitoringRobot.Base.Machine

/-- `SlamtecLidarTimingDesc`, as far as the unpacking uses it. The duration of a sample divides
a second: the code divides by their quotient. -/
structure TimingDesc where
  sampleDurationUs : Nat
  pos : 0 < sampleDurationUs
  le : sampleDurationUs ≤ 1000000

/-- The sync bit and the distance of the last node; the dense format does not use the latter. -/
structure DenseCarry where
  lastNodeSyncBit : Bool
  lastDistQ2 : Int
deriving DecidableEq, Repr

/-- The widest way from one start angle to the next. -/
def maxDiffAngleThresholdQ8 (cabins : Nat) (timing : TimingDesc) : Int :=
  ((360 * 100 * cabins / (1000000 / timing.sampleDurationUs)) <<< 8 : Nat)

/-- The sync condition, before the edge is taken. -/
def nearTurn (rawQ16 incQ16 : Int) : Bool := (rawQ16 + incQ16).tmod turnQ16 < incQ16 * 2

/-- One sample at the running angle. -/
def denseStep (sample : Int → Nat → Nat × Int) (incQ16 : Int) (s : Int × DenseCarry)
    (pos : Nat) : (Int × DenseCarry) × List HqNode :=
  let value := sample s.2.lastDistQ2 pos
  let syncBit := (nearTurn s.1 incQ16 ^^ s.2.lastNodeSyncBit) && nearTurn s.1 incQ16
  ((s.1 + incQ16, { lastNodeSyncBit := syncBit, lastDistQ2 := value.2 }),
    [{ capsuleNode s.1 incQ16 0 value.2 with
        quality := value.1
        flag := if syncBit then 1 else 2 }])

/-- The samples of the frame before, unless the way to this one is too wide. -/
def denseUnpack (cabins count startAngleAt : Nat) (sample : List UInt8 → Int → Nat → Nat × Int)
    (timing : TimingDesc) (carried : DenseCarry) (prev current : List UInt8) :
    DenseCarry × List HqNode :=
  let prevStart := startAngleQ8 (field prev startAngleAt 2)
  let diff := diffAngleQ8 prevStart (startAngleQ8 (field current startAngleAt 2))
  if diff > maxDiffAngleThresholdQ8 cabins timing then (carried, [])
  else
    let run := emit (denseStep (sample prev) ((diff * 2 ^ 8).tdiv count))
      (prevStart * 2 ^ 8, carried) (List.range count)
    (run.1.2, run.2)

namespace Dense

/-- Quality and distance of a sample: one in each cabin of two bytes. -/
def sample (frame : List UInt8) (_ : Int) (pos : Nat) : Nat × Int :=
  let distQ2 := field frame (4 + 2 * pos) 2 <<< 2
  (if distQ2 ≠ 0 then 0x2F <<< 2 else 0, distQ2)

/-- `UnpackerHandler_DenseCapsuleNode`: the last sync bit is a static variable. -/
def format (timing : TimingDesc) : CapsuleFormat DenseCarry where
  ansType := 0x85
  size := 84
  startAngleAt := 2
  unpack := denseUnpack 40 40 2 sample timing
  onReset := id

end Dense

namespace UltraDense

/-- Quality and distance in 20 bits: the wider the scale, the fewer bits the quality has. A near
distance is averaged with the last one. -/
def decode (lastDistQ2 : Int) (qualityDistScale : Nat) : Nat × Int :=
  match qualityDistScale % 4 with
  | 0 =>
    let distQ2 : Int := ((qualityDistScale &&& 0xFFC) * 2 : Nat)
    (qualityDistScale >>> 12,
      if lastDistQ2 ≠ 0 ∧ |distQ2 - lastDistQ2| ≤ 8 then (distQ2 + lastDistQ2) >>> (1 : Nat)
      else distQ2)
  | 1 => ((qualityDistScale >>> 13) <<< 1, ((qualityDistScale &&& 0x1FFC) * 3 + 2046 <<< 2 : Nat))
  | 2 => ((qualityDistScale >>> 14) <<< 2, ((qualityDistScale &&& 0x3FFC) * 4 + 8187 <<< 2 : Nat))
  | _ => ((qualityDistScale >>> 15) <<< 3, ((qualityDistScale &&& 0x7FFC) * 5 + 24567 <<< 2 : Nat))

/-- Two samples in each cabin of five bytes, whose last byte holds their high bits. -/
def sample (frame : List UInt8) (lastDistQ2 : Int) (pos : Nat) : Nat × Int :=
  let low := field frame (10 + 5 * (pos / 2) + 2 * (pos % 2)) 2
  let qualityhArray := field frame (10 + 5 * (pos / 2) + 4) 1
  let high := if pos % 2 = 0 then qualityhArray &&& 0x0F else qualityhArray >>> 4
  decode lastDistQ2 (low ||| (high <<< 16))

/-- `UnpackerHandler_UltraDenseCapsuleNode`. -/
def format (timing : TimingDesc) : CapsuleFormat DenseCarry where
  ansType := 0x86
  size := 170
  startAngleAt := 8
  unpack := denseUnpack 32 64 8 sample timing
  onReset s := { s with carried := { lastNodeSyncBit := false, lastDistQ2 := 0 } }

end UltraDense

/-! ### The edge of the sync condition -/

/-- What the application does with a handler. -/
inductive CapsuleCall where
  | onData (data : List UInt8)
  | reset
deriving DecidableEq, Repr

/-- One call. -/
def CapsuleFormat.call {τ : Type} (f : CapsuleFormat τ) (h : CapsuleFormat.Handler τ) :
    CapsuleCall → CapsuleFormat.Handler τ × List Decoded
  | .onData data => f.onData h data
  | .reset => (f.reset h, [])

/-- The published nodes. -/
def hqNodes (out : List Decoded) : List HqNode :=
  out.filterMap fun
    | .hqNode n => some n
    | _ => none

/-- No two neighbours have the sync flag. -/
def SyncApart (nodes : List HqNode) : Prop :=
  nodes.IsChain fun a b ↦ ¬ (a.isSync = true ∧ b.isSync = true)

/-- What was published so far, and the sync flag of the last node. -/
structure Marked (carried : DenseCarry) (nodes : List HqNode) : Prop where
  apart : SyncApart nodes
  last : ∀ n, nodes.getLast? = some n → n.isSync = carried.lastNodeSyncBit

theorem Marked.step {sample : Int → Nat → Nat × Int} {incQ16 : Int} {s : Int × DenseCarry}
    {nodes : List HqNode} (h : Marked s.2 nodes) (pos : Nat) :
    Marked (denseStep sample incQ16 s pos).1.2 (nodes ++ (denseStep sample incQ16 s pos).2) := by
  have hflag : ∀ n ∈ (denseStep sample incQ16 s pos).2,
      n.isSync = (denseStep sample incQ16 s pos).1.2.lastNodeSyncBit := by
    intro n hn
    rw [List.mem_singleton.mp hn, HqNode.isSync]
    dsimp only [denseStep]
    split
    · next hsync => rw [hsync]; rfl
    · next hsync => rw [Bool.eq_false_iff.mpr hsync]; rfl
  have hedge : (denseStep sample incQ16 s pos).1.2.lastNodeSyncBit = true →
      s.2.lastNodeSyncBit = false := by
    dsimp only [denseStep]
    cases nearTurn s.1 incQ16 <;> cases s.2.lastNodeSyncBit <;> simp
  obtain ⟨n, hn⟩ : ∃ n, (denseStep sample incQ16 s pos).2 = [n] := ⟨_, rfl⟩
  rw [hn] at hflag ⊢
  have hlast := hflag n (List.mem_singleton_self n)
  constructor
  · rw [SyncApart, List.isChain_append]
    refine ⟨h.apart, List.IsChain.singleton n, ?_⟩
    intro a ha b hb hboth
    rw [List.head?_cons, Option.mem_some_iff] at hb
    subst hb
    have hprev := h.last a ha
    rw [hedge (hlast ▸ hboth.2), hboth.1] at hprev
    cases hprev
  · intro m hm
    rw [List.getLast?_concat, Option.some.injEq] at hm
    exact hm ▸ hlast

theorem Marked.unpack {cabins count startAngleAt : Nat}
    {sample : List UInt8 → Int → Nat → Nat × Int} {timing : TimingDesc} {carried : DenseCarry}
    {nodes : List HqNode} (h : Marked carried nodes) (prev current : List UInt8) :
    Marked (denseUnpack cabins count startAngleAt sample timing carried prev current).1
      (nodes ++ (denseUnpack cabins count startAngleAt sample timing carried prev current).2) := by
  simp only [denseUnpack]
  split
  · rw [List.append_nil]
    exact h
  · refine emit_history (P := fun (s : Int × DenseCarry) out ↦ Marked s.2 (nodes ++ out)) ?_ ?_
    · rw [List.append_nil]
      exact h
    · intro t out pos _ ht
      rw [← List.append_assoc]
      exact ht.step pos

theorem hqNodes_append (out out' : List Decoded) :
    hqNodes (out ++ out') = hqNodes out ++ hqNodes out' := List.filterMap_append

theorem hqNodes_map (nodes : List HqNode) : hqNodes (nodes.map .hqNode) = nodes := by
  rw [hqNodes, List.filterMap_map]
  exact List.filterMap_some

section Calls

variable {f : CapsuleFormat DenseCarry}

/-- A format whose unpacking keeps the sync flags apart. -/
def Edged (f : CapsuleFormat DenseCarry) : Prop := ∀ carried nodes prev current,
  Marked carried nodes → Marked (f.unpack carried prev current).1
    (nodes ++ (f.unpack carried prev current).2)

theorem edged_dense (timing : TimingDesc) : Edged (Dense.format timing) :=
  fun _ _ prev current h ↦ h.unpack prev current

theorem edged_ultraDense (timing : TimingDesc) : Edged (UltraDense.format timing) :=
  fun _ _ prev current h ↦ h.unpack prev current

theorem Edged.onFrame (hf : Edged f) (s : CapsuleState DenseCarry) (out : List Decoded)
    (frame : List UInt8) (h : Marked s.carried (hqNodes out)) :
    Marked (f.onFrame s frame).1.carried (hqNodes (out ++ (f.onFrame s frame).2)) := by
  have hnone : ∀ more : List Decoded, hqNodes more = [] →
      Marked s.carried (hqNodes (out ++ more)) := by
    intro more hmore
    rw [hqNodes_append, hmore, List.append_nil]
    exact h
  by_cases hsum : CapsuleFormat.recvChecksum frame = CapsuleFormat.checksum frame
  · by_cases hsync : f.HasSyncBit frame
    · rw [CapsuleFormat.onFrame_sync hsum hsync]
      apply hnone
      split <;> rfl
    · cases s with
      | mk previous carried =>
        cases previous with
        | none =>
          rw [CapsuleFormat.onFrame_none hsum hsync]
          exact hnone [] rfl
        | some prev =>
          rw [CapsuleFormat.onFrame_some hsum hsync, hqNodes_append, hqNodes_map]
          exact hf carried _ prev frame h
  · rw [CapsuleFormat.onFrame_corrupted hsum]
    exact hnone _ rfl

theorem Edged.onData (hf : Edged f) (h : CapsuleFormat.Handler DenseCarry) (out : List Decoded)
    (data : List UInt8) (hmarked : Marked h.state.carried (hqNodes out)) :
    Marked (f.onData h data).1.state.carried (hqNodes (out ++ (f.onData h data).2)) := by
  refine emit_history (P := fun (c : CapsuleFormat.Handler DenseCarry) more ↦
    Marked c.state.carried (hqNodes (out ++ more))) ?_ ?_
  · rw [List.append_nil]
    exact hmarked
  · intro c more b _ hc
    have hlost : ∀ (s : CapsuleState DenseCarry) out, Marked s.carried (hqNodes out) →
        Marked s.forget.carried (hqNodes out) := fun _ _ hs ↦ hs
    rw [← List.append_assoc]
    exact Framing.onByte_history (P := fun (s : CapsuleState DenseCarry) out ↦
      Marked s.carried (hqNodes out)) hlost hf.onFrame hc b

theorem marked_nil (carried : DenseCarry) : Marked carried (hqNodes []) := by
  constructor
  · exact List.IsChain.nil
  · intro n hn
    cases hn

/-- Whatever arrives, damaged or not, no two samples in a row end a turn. In the dense format
this holds across resets too, which leave the last sync bit in place. -/
theorem sync_apart (timing : TimingDesc) (h : CapsuleFormat.Handler DenseCarry) :
    (∀ calls, SyncApart (hqNodes (emit (Dense.format timing).call h calls).2)) ∧
      ∀ data, SyncApart (hqNodes ((UltraDense.format timing).onData h data).2) := by
  constructor
  · intro calls
    refine (emit_history (P := fun (c : CapsuleFormat.Handler DenseCarry) out ↦
      Marked c.state.carried (hqNodes out)) (marked_nil _) ?_).apart
    intro c out call _ hc
    cases call with
    | onData data => exact (edged_dense timing).onData c out data hc
    | reset =>
      dsimp only [CapsuleFormat.call]
      rw [List.append_nil]
      exact hc
  · intro data
    exact ((edged_ultraDense timing).onData h [] data (marked_nil _)).apart

end Calls

/-! ### What a reset leaves behind -/

namespace CapsuleFormat

variable {τ : Type}

/-- A reset separates the streams around it, whatever came before. -/
def ResetSeparates (f : CapsuleFormat Unit) : Prop :=
  ∀ (h : Handler Unit) (data behind : List UInt8),
    (emit f.call h [.onData data, .reset, .onData behind]).2 =
      (f.onData h data).2 ++ (f.onData (fresh ()) behind).2

/-- A reset only drops the frame it falls into: the frames before it and behind it are unpacked
as one stream. -/
def ResetJoins (f : CapsuleFormat τ) : Prop :=
  ∀ (carried : τ) (before behind : List (List UInt8)) (start rest : List UInt8),
    (∀ frame ∈ before ++ behind, f.framing.Frame frame) → f.framing.Frame (start ++ rest) →
    rest ≠ [] →
    (emit f.call (fresh carried)
      [.onData (before.flatten ++ start), .reset, .onData behind.flatten]).2 =
        (f.onData (fresh carried) (before ++ behind).flatten).2

theorem resetSeparates_of_forget {f : CapsuleFormat Unit} (hf : f.onReset = CapsuleState.forget) :
    f.ResetSeparates := by
  intro h data behind
  have hreset : ∀ g : Handler Unit, f.reset g = fresh () := by
    intro g
    rw [reset, hf]
    rfl
  rw [emit_cons, emit_cons, emit_cons, emit_nil, List.append_nil]
  simp only [call, hreset, List.nil_append]

/-- A handler that keeps everything but its buffer joins. -/
theorem resetJoins_of_id {f : CapsuleFormat τ} (hf : f.onReset = id) : f.ResetJoins := by
  intro carried before behind start rest hframes hstart hrest
  have hbefore : ∀ frame ∈ before, f.framing.Frame frame :=
    fun frame h ↦ hframes frame (List.mem_append_left behind h)
  have hbehind : ∀ frame ∈ behind, f.framing.Frame frame :=
    fun frame h ↦ hframes frame (List.mem_append_right before h)
  have hpart : ∀ s, emit f.onByte { cached := [], state := s } start =
      ({ cached := start, state := s }, []) := fun s ↦ Framing.emit_start hstart hrest s
  have hfirst : f.onData (fresh carried) (before.flatten ++ start) =
      ({ cached := start,
         state := (emit f.onFrame { previous := none, carried := carried } before).1 },
        (emit f.onFrame { previous := none, carried := carried } before).2) := by
    rw [onData, emit_append, fresh, emit_onByte hbefore, hpart, List.append_nil]
  rw [emit_cons, emit_cons, emit_cons, emit_nil, List.append_nil]
  simp only [call, hfirst, reset, hf, id, List.nil_append]
  rw [onData, onData, fresh, emit_onByte hframes, emit_onByte hbehind, emit_append]

end CapsuleFormat

/-- The express and the ultra handler unpack no frame from before a reset. The dense handler
unpacks the last frame before a reset with the first one behind it. -/
theorem reset_separates (timing : TimingDesc) :
    Express.format.ResetSeparates ∧ Ultra.format.ResetSeparates ∧
      (Dense.format timing).ResetJoins :=
  ⟨CapsuleFormat.resetSeparates_of_forget rfl, CapsuleFormat.resetSeparates_of_forget rfl,
    CapsuleFormat.resetJoins_of_id rfl⟩

end MonitoringRobot.Lidar
