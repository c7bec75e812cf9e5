import Mathlib.Logic.Function.Basic
import MonitoringRobot.Lidar.Dense
import MonitoringRobot.Lidar.HqNodes

/-!
# Choosing the handler

`LIDARSampleDataUnpackerImpl`
(`edge_packages/src/rplidar_ros/sdk/src/dataunpacker/dataunpacker.cpp:78-222`) hands the
payload of a message to the handler of its answer type. When the type changes, the handler
before is reset; the handlers live as long as the unpacker.
-/

namespace MonitoringRobot.Lidar
open MonitoringRobot.Base MonitoringRobot.Base.Machine

/-- The registered handlers. -/
inductive UnpackerHandler where
  | normalNode
  | hqNode
  | capsuleNode
  | ultraCapsuleNode
  | denseCapsuleNode
  | ultraDenseCapsuleNode
deriving DecidableEq, Repr

namespace UnpackerHandler

/-- All of them, in the order of their registration. -/
def all : List UnpackerHandler :=
  [normalNode, hqNode, capsuleNode, ultraCapsuleNode, denseCapsuleNode, ultraDenseCapsuleNode]

/-- The members of a handler. -/
def State : UnpackerHandler → Type
  | normalNode => NormalNode.Handler
  | hqNode => HqNodes.Handler
  | capsuleNode => CapsuleFormat.Handler Unit
  | ultraCapsuleNode => CapsuleFormat.Handler Unit
  | denseCapsuleNode => CapsuleFormat.Handler DenseCarry
  | ultraDenseCapsuleNode => CapsuleFormat.Handler DenseCarry

/-- `getSampleAnswerType`. -/
def ansType : UnpackerHandler → UInt8
  | normalNode => NormalNode.ansType
  | hqNode => HqNodes.ansType
  | capsuleNode => Express.format.ansType
  | ultraCapsuleNode => Ultra.format.ansType
  | denseCapsuleNode => 0x85
  | ultraDenseCapsuleNode => 0x86

/-- The constructors. -/
def fresh : (k : UnpackerHandler) → k.State
  | normalNode => { cached := [], state := () }
  | hqNode => { cached := [], state := () }
  | capsuleNode => CapsuleFormat.fresh ()
  | ultraCapsuleNode => CapsuleFormat.fresh ()
  | denseCapsuleNode => CapsuleFormat.fresh { lastNodeSyncBit := false, lastDistQ2 := 0 }
  | ultraDenseCapsuleNode => CapsuleFormat.fresh { lastNodeSyncBit := false, lastDistQ2 := 0 }

/-- `onData`. -/
def onData (timing : TimingDesc) : (k : UnpackerHandler) → k.State → List UInt8 →
    k.State × List Decoded
  | normalNode => NormalNode.onData
  | hqNode => HqNodes.onData
  | capsuleNode => Express.format.onData
  | ultraCapsuleNode => Ultra.format.onData
  | denseCapsuleNode => (Dense.format timing).onData
  | ultraDenseCapsuleNode => (UltraDense.format timing).onData

/-- `reset`. -/
def reset (timing : TimingDesc) : (k : UnpackerHandler) → k.State → k.State
  | normalNode => NormalNode.reset
  | hqNode => HqNodes.reset
  | capsuleNode => Express.format.reset
  | ultraCapsuleNode => Ultra.format.reset
  | denseCapsuleNode => (Dense.format timing).reset
  | ultraDenseCapsuleNode => (UltraDense.format timing).reset

/-- The lookup in `_handlerMap`. -/
def find (ansType : UInt8) : Option UnpackerHandler := all.find? fun k ↦ k.ansType = ansType

end UnpackerHandler

/-- The members of the unpacker. -/
structure DataUnpacker where
  enabled : Bool
  lastActiveAnsType : UInt8
  lastActiveHandler : Option UnpackerHandler
  handlers : (k : UnpackerHandler) → k.State

namespace DataUnpacker

/-- `CreateInstance`. -/
def init : DataUnpacker where
  enabled := false
  lastActiveAnsType := 0
  lastActiveHandler := none
  handlers := UnpackerHandler.fresh

variable (timing : TimingDesc)

/-- `clearCache`. -/
def clearCache (u : DataUnpacker) : DataUnpacker :=
  match u.lastActiveHandler with
  | some k => { u with handlers := Function.update u.handlers k (k.reset timing (u.handlers k)) }
  | none => u

/-- `reset`. -/
def reset (u : DataUnpacker) : DataUnpacker :=
  { u.clearCache timing with lastActiveHandler := none, lastActiveAnsType := 0 }

/-- `enable`. -/
def enable (u : DataUnpacker) : DataUnpacker := reset timing { u with enabled := true }

/-- `disable`. -/
def disable (u : DataUnpacker) : DataUnpacker := reset timing { u with enabled := false }

/-- `onDeselectHandler` and `onSelectHandler`. -/
def select (u : DataUnpacker) (ansType : UInt8) : DataUnpacker :=
  if u.lastActiveAnsType ≠ ansType then
    { u.reset timing with
      lastActiveHandler := UnpackerHandler.find ansType
      lastActiveAnsType := ansType }
  else u

/-- `onSampleData`: whether the data was taken, and what is published. -/
def onSampleData (u : DataUnpacker) (ansType : UInt8) (buffer : List UInt8) :
    DataUnpacker × Bool × List Decoded :=
  if u.enabled then
    let selected := u.select timing ansType
    match selected.lastActiveHandler with
    | some k =>
      let fed := k.onData timing (selected.handlers k) buffer
      ({ selected with handlers := Function.update selected.handlers k fed.1 }, true, fed.2)
    | none => (selected, false, [])
  else (u, false, [])

end DataUnpacker

/-- What the driver does with the unpacker. -/
inductive UnpackerEvent where
  | sampleData (ansType : UInt8) (buffer : List UInt8)
  | enable
  | disable
deriving DecidableEq, Repr

/-- One call. -/
def DataUnpacker.call (timing : TimingDesc) (u : DataUnpacker) :
    UnpackerEvent → DataUnpacker × List Decoded
  | .sampleData ansType buffer =>
    ((u.onSampleData timing ansType buffer).1, (u.onSampleData timing ansType buffer).2.2)
  | .enable => (u.enable timing, [])
  | .disable => (u.disable timing, [])

/-! ### Sessions -/

/-- The messages of one type in a row, since the unpacker was last enabled or disabled. -/
structure Session where
  enabled : Bool
  ansType : UInt8
  buffers : List (List UInt8)

namespace Session

/-- Nothing was received. -/
def init : Session := { enabled := false, ansType := 0, buffers := [] }

/-- The buffers of the session a message of a type falls into. -/
def buffersOf (s : Session) (ansType : UInt8) : List (List UInt8) :=
  if ansType = s.ansType then s.buffers else []

/-- One call. -/
def step (s : Session) : UnpackerEvent → Session
  | .sampleData ansType buffer =>
    if s.enabled then
      { s with ansType := ansType, buffers := s.buffersOf ansType ++ [buffer] }
    else s
  | .enable => { enabled := true, ansType := 0, buffers := [] }
  | .disable => { enabled := false, ansType := 0, buffers := [] }

end Session

/-- A handler whose `reset` leaves what its constructor made. -/
def UnpackerHandler.ResetsFully (k : UnpackerHandler) : Prop :=
  k ≠ denseCapsuleNode ∧ k ≠ ultraDenseCapsuleNode

instance (k : UnpackerHandler) : Decidable k.ResetsFully :=
  inferInstanceAs (Decidable (_ ∧ _))

theorem UnpackerHandler.ResetsFully.reset_eq {k : UnpackerHandler} (h : k.ResetsFully)
    (timing : TimingDesc) (s : k.State) : k.reset timing s = k.fresh := by
  cases k with
  | normalNode => rfl
  | hqNode => rfl
  | capsuleNode => rfl
  | ultraCapsuleNode => rfl
  | denseCapsuleNode => exact absurd rfl h.1
  | ultraDenseCapsuleNode => exact absurd rfl h.2

/-- No handler has the answer type of an unpacker without one. -/
theorem UnpackerHandler.find_zero : UnpackerHandler.find 0 = none := by decide

/-- The state of a handler behind the buffers of its session. -/
def UnpackerHandler.after (timing : TimingDesc) (k : UnpackerHandler)
    (buffers : List (List UInt8)) : k.State := (emit (k.onData timing) k.fresh buffers).1

theorem UnpackerHandler.after_concat (timing : TimingDesc) (k : UnpackerHandler)
    (buffers : List (List UInt8)) (buffer : List UInt8) :
    k.after timing (buffers ++ [buffer]) = (k.onData timing (k.after timing buffers) buffer).1 := by
  rw [after, emit_concat]
  rfl

/-- The active handler has seen the buffers of the session and nothing else, and every other
one is as good as new. -/
structure InSession (timing : TimingDesc) (u : DataUnpacker) (s : Session) : Prop where
  enabled : u.enabled = s.enabled
  ansType : u.lastActiveAnsType = s.ansType
  handler : u.lastActiveHandler = UnpackerHandler.find s.ansType
  active : ∀ k, k.ResetsFully → u.lastActiveHandler = some k →
    u.handlers k = k.after timing s.buffers
  others : ∀ k, k.ResetsFully → u.lastActiveHandler ≠ some k → u.handlers k = k.fresh

namespace InSession

variable {timing : TimingDesc} {u : DataUnpacker} {s : Session}

theorem init : InSession timing DataUnpacker.init Session.init := by
  constructor
  · rfl
  · rfl
  · exact UnpackerHandler.find_zero.symm
  · intro k _ h
    cases h
  · intro k _ _
    rfl

/-- Behind a reset every handler is as good as new. -/
theorem reset_handlers (h : InSession timing u s) {k : UnpackerHandler} (hk : k.ResetsFully) :
    (u.reset timing).handlers k = k.fresh := by
  cases hactive : u.lastActiveHandler with
  | none =>
    have hclear : u.clearCache timing = u := by simp only [DataUnpacker.clearCache, hactive]
    rw [DataUnpacker.reset, hclear]
    exact h.others k hk (by rw [hactive]; exact fun hn ↦ by cases hn)
  | some j =>
    have hclear : u.clearCache timing =
        { u with handlers := Function.update u.handlers j (j.reset timing (u.handlers j)) } := by
      simp only [DataUnpacker.clearCache, hactive]
    rw [DataUnpacker.reset, hclear]
    by_cases hjk : k = j
    · subst hjk
      exact (Function.update_self ..).trans (hk.reset_eq timing _)
    · refine (Function.update_of_ne hjk ..).trans (h.others k hk ?_)
      rw [hactive]
      exact fun hsome ↦ hjk (Option.some.inj hsome).symm

theorem reset (h : InSession timing u s) : InSession timing (u.reset timing)
    { enabled := s.enabled, ansType := 0, buffers := [] } := by
  have henabled : (u.reset timing).enabled = s.enabled := by
    rw [← h.enabled, DataUnpacker.reset, DataUnpacker.clearCache]
    split <;> rfl
  constructor
  · exact henabled
  · rfl
  · exact UnpackerHandler.find_zero.symm
  · intro k _ hactive
    cases hactive
  · intro k hk _
    exact h.reset_handlers hk

theorem withEnabled (h : InSession timing u s) (b : Bool) :
    InSession timing { u with enabled := b } { s with enabled := b } :=
  ⟨rfl, h.ansType, h.handler, h.active, h.others⟩

theorem select (h : InSession timing u s) (t : UInt8) :
    InSession timing (u.select timing t) { s with ansType := t, buffers := s.buffersOf t } := by
  rw [DataUnpacker.select, h.ansType]
  by_cases ht : t = s.ansType
  · have hsame : ¬ s.ansType ≠ t := fun hne ↦ hne ht.symm
    rw [if_neg hsame, Session.buffersOf, if_pos ht, ht]
    exact h
  · have hne : s.ansType ≠ t := fun heq ↦ ht heq.symm
    rw [if_pos hne, Session.buffersOf, if_neg ht]
    have hreset := h.reset
    constructor
    · exact hreset.enabled
    · rfl
    · rfl
    · intro k hk _
      exact h.reset_handlers hk
    · intro k hk _
      exact h.reset_handlers hk

theorem sampleData (h : InSession timing u s) (t : UInt8) (buffer : List UInt8) :
    InSession timing (u.onSampleData timing t buffer).1 (s.step (.sampleData t buffer)) ∧
      ∀ k, k.ResetsFully → UnpackerHandler.find t = some k →
        (u.onSampleData timing t buffer).2.2 =
          if s.enabled then (k.onData timing (k.after timing (s.buffersOf t)) buffer).2
          else [] := by
  by_cases henabled : s.enabled = true
  · have hu : u.enabled = true := h.enabled.trans henabled
    have hsel := h.select t
    have hstep : s.step (.sampleData t buffer) =
        { s with ansType := t, buffers := s.buffersOf t ++ [buffer] } := by
      rw [Session.step, if_pos henabled]
    simp only [hstep, if_pos henabled]
    cases hfind : UnpackerHandler.find t with
    | none =>
      have hnone : (u.select timing t).lastActiveHandler = none := hsel.handler.trans hfind
      have hcall : u.onSampleData timing t buffer = (u.select timing t, false, []) := by
        rw [DataUnpacker.onSampleData, if_pos hu]
        simp only [hnone]
      rw [hcall]
      refine ⟨?_, fun k _ hk ↦ by cases hk⟩
      constructor
      · exact hsel.enabled
      · exact hsel.ansType
      · exact hsel.handler
      · intro k _ hk
        exact absurd (hnone.symm.trans hk) (fun hn ↦ by cases hn)
      · exact hsel.others
    | some j =>
      have hsome : (u.select timing t).lastActiveHandler = some j := hsel.handler.trans hfind
      have hcall : u.onSampleData timing t buffer =
          ({ u.select timing t with
              handlers := Function.update (u.select timing t).handlers j
                (j.onData timing ((u.select timing t).handlers j) buffer).1 },
            true, (j.onData timing ((u.select timing t).handlers j) buffer).2) := by
        rw [DataUnpacker.onSampleData, if_pos hu]
        simp only [hsome]
      rw [hcall]
      constructor
      · constructor
        · exact hsel.enabled
        · exact hsel.ansType
        · exact hsel.handler
        · intro k hk hactive
          have hjk : j = k := Option.some.inj (hsome.symm.trans hactive)
          subst hjk
          refine (Function.update_self ..).trans ?_
          rw [hsel.active j hk hsome, UnpackerHandler.after_concat]
        · intro k hk hactive
          have hkj : k ≠ j := by
            intro heq
            subst heq
            exact hactive hsome
          exact (Function.update_of_ne hkj ..).trans (hsel.others k hk hactive)
      · intro k hk hkj
        have hjk : j = k := Option.some.inj hkj
        subst hjk
        rw [hsel.active j hk hsome]
  · have hu : ¬ u.enabled = true := fun hu ↦ henabled (h.enabled.symm.trans hu)
    have hcall : u.onSampleData timing t buffer = (u, false, []) := by
      rw [DataUnpacker.onSampleData, if_neg hu]
    have hstep : s.step (.sampleData t buffer) = s := by rw [Session.step, if_neg henabled]
    rw [hcall, hstep]
    exact ⟨h, fun _ _ _ ↦ (if_neg henabled).symm⟩

theorem step (h : InSession timing u s) (event : UnpackerEvent) :
    InSession timing (u.call timing event).1 (s.step event) := by
  cases event with
  | sampleData t buffer => exact (h.sampleData t buffer).1
  | enable => exact (h.withEnabled true).reset
  | disable => exact (h.withEnabled false).reset

theorem run (events : List UnpackerEvent) :
    InSession timing (emit (DataUnpacker.call timing) .init events).1
      (events.foldl Session.step .init) := by
  induction events using List.reverseRecOn with
  | nil => exact InSession.init
  | append_singleton events event ih =>
    rw [emit_concat, List.foldl_append]
    exact ih.step event

end InSession

/-- After any calls, what a message publishes depends on the buffers of its session only: its
handler works as if it was new when the session began and saw nothing but this session. The
dense and the ultra-dense handler are left out, whose reset is not complete. -/
theorem published_in_session (timing : TimingDesc) (events : List UnpackerEvent) {t : UInt8}
    {k : UnpackerHandler} (hfind : UnpackerHandler.find t = some k) (hk : k.ResetsFully)
    (buffer : List UInt8) :
    ((emit (DataUnpacker.call timing) .init events).1.onSampleData timing t buffer).2.2 =
      if (events.foldl Session.step .init).enabled then
        (k.onData timing
          (k.after timing ((events.foldl Session.step .init).buffersOf t)) buffer).2
      else [] :=
  ((InSession.run events).sampleData t buffer).2 k hk hfind

/-- The sample duration of the standard scan mode. -/
def standardTiming : TimingDesc where
  sampleDurationUs := 508
  pos := by decide
  le := by decide

/-- A sample whose first bytes came before a message of another type is lost, and the next one
is published from its own bytes. -/
theorem published_in_session_other :
    ((emit (DataUnpacker.call standardTiming) .init
      [.enable, .sampleData 0x81 [0x3E, 0x01], .sampleData 0x82 [0xA0],
        .sampleData 0x81 [0x3E, 0x81, 0x0C]]).1.onSampleData standardTiming 0x81
          [0xA0, 0x0F]).2.2 =
      [.hqNode { angleZQ14 := 4551, distMmQ2 := 4000, quality := 60, flag := 0 }] :=
  (published_in_session standardTiming _ (t := 0x81) (k := .normalNode) (by decide) (by decide)
    _).trans (by decide)

end MonitoringRobot.Lidar
