import MonitoringRobot.Lidar.Codec

/-!
# Requests and their answers

A request thread and the decoder thread meet in `_sendCommandWithResponse` and
`onProtocolMessageDecoded`
(`edge_packages/src/rplidar_ros/sdk/src/sl_lidar_driver.cpp:1612-1669`). The request thread
names the type it waits for and clears the event under the lock, and sends its message behind
it; the decoder thread compares a message with that type before it takes the lock, and hands it
over under the lock. So anything can happen between the two, on both sides. A wait may return
without the event, since `Event::wait` does not look at the flag again. A message that never
came is the null pointer.
-/

namespace MonitoringRobot.Lidar
open MonitoringRobot.Base MonitoringRobot.Base.Machine

/-- Where the request thread is: outside, before its message is sent, waiting for the event, or
past it. -/
inductive RequestState where
  | idle
  | sending (responseType : UInt8)
  | waiting (responseType : UInt8)
  | woken (responseType : UInt8)
deriving DecidableEq, Repr

/-- The type a request waits for. -/
def RequestState.responseType? : RequestState → Option UInt8
  | .idle => none
  | .sending t => some t
  | .waiting t => some t
  | .woken t => some t

/-- The members both threads use, and where the threads are. The decoder thread holds a message
it has compared and not handed over yet. -/
structure AnswerWaiter where
  waitingPacketType : UInt8
  lastAnsPkt : Option ProtocolMessage
  isSignalled : Bool
  compared : Option ProtocolMessage
  request : RequestState
deriving DecidableEq, Repr

/-- What the threads do. `_sendCommandWithResponse` names its type, sends, waits and reads. -/
inductive AnswerEvent where
  | nameType (responseType : UInt8)
  | sendMessage (isOk : Bool)
  | sendCommandWithoutResponse
  | compare (message : ProtocolMessage)
  | handOver
  | wait (spurious : Bool)
  | timeout
  | readAnswer
deriving DecidableEq, Repr

/-- The event begins a request. -/
def AnswerEvent.asks : AnswerEvent → Bool
  | .nameType _ => true
  | _ => false

/-- What a request returns. -/
structure Reply where
  responseType : UInt8
  ansPkt : Option ProtocolMessage
deriving DecidableEq, Repr

namespace AnswerWaiter

/-- The constructor. -/
def init : AnswerWaiter where
  waitingPacketType := 0
  lastAnsPkt := none
  isSignalled := false
  compared := none
  request := .idle

/-- One step of either thread; a step a thread cannot take changes nothing. -/
def step (s : AnswerWaiter) : AnswerEvent → AnswerWaiter × List Reply
  | .nameType responseType =>
    if s.request = .idle then
      ({ s with waitingPacketType := responseType
                isSignalled := false
                request := .sending responseType }, [])
    else (s, [])
  | .sendMessage isOk =>
    match s.request with
    | .sending responseType =>
      ({ s with request := if isOk then .waiting responseType else .idle }, [])
    | _ => (s, [])
  | .sendCommandWithoutResponse =>
    if s.request = .idle then ({ s with isSignalled := false }, []) else (s, [])
  | .compare message =>
    if s.compared = none ∧ message.cmd = s.waitingPacketType then
      ({ s with compared := some message }, [])
    else (s, [])
  | .handOver =>
    match s.compared with
    | some message =>
      ({ s with lastAnsPkt := some message, isSignalled := true, compared := none }, [])
    | none => (s, [])
  | .wait spurious =>
    match s.request with
    | .waiting responseType =>
      if s.isSignalled || spurious then
        ({ s with isSignalled := false, request := .woken responseType }, [])
      else (s, [])
    | _ => (s, [])
  | .timeout =>
    match s.request with
    | .waiting _ => ({ s with request := .idle }, [])
    | _ => (s, [])
  | .readAnswer =>
    match s.request with
    | .woken responseType =>
      ({ s with request := .idle }, [{ responseType := responseType, ansPkt := s.lastAnsPkt }])
    | _ => (s, [])

/-- A type is named when no other request is under way, which the operation lock ensures, and
when the decoder thread is not between its comparison and the lock; and no wait wakes up
spuriously. -/
def Undisturbed (s : AnswerWaiter) (event : AnswerEvent) : Prop :=
  (event.asks = true → s.request = .idle ∧ s.compared = none) ∧ event ≠ .wait true

instance (s : AnswerWaiter) (event : AnswerEvent) : Decidable (s.Undisturbed event) :=
  inferInstanceAs (Decidable (_ ∧ _))

/-- A message of the type asked for that was compared since. -/
def Answers (responseType : UInt8) (since : List AnswerEvent) (answer : Option ProtocolMessage) :
    Prop :=
  ∃ message, answer = some message ∧ message.cmd = responseType ∧ .compare message ∈ since

/-- Since a type was named: whatever is compared, handed over and noticed is of this type. -/
structure Asked (responseType : UInt8) (since : List AnswerEvent) (s : AnswerWaiter) : Prop where
  waits : s.waitingPacketType = responseType
  compared : s.compared ≠ none → Answers responseType since s.compared
  signalled : s.isSignalled = true → Answers responseType since s.lastAnsPkt
  request : ∀ t, s.request.responseType? = some t → t = responseType
  woken : ∀ t, s.request = .woken t → Answers responseType since s.lastAnsPkt

variable {responseType : UInt8} {since : List AnswerEvent} {s : AnswerWaiter}

theorem Answers.concat {answer : Option ProtocolMessage}
    (h : Answers responseType since answer) (event : AnswerEvent) :
    Answers responseType (since ++ [event]) answer := by
  obtain ⟨m, hm, hcmd, hsince⟩ := h
  exact ⟨m, hm, hcmd, List.mem_append_left [event] hsince⟩

theorem Asked.concat (h : Asked responseType since s) (event : AnswerEvent) :
    Asked responseType (since ++ [event]) s := by
  constructor
  · exact h.waits
  · exact fun hc ↦ (h.compared hc).concat event
  · exact fun hs ↦ (h.signalled hs).concat event
  · exact h.request
  · exact fun t ht ↦ (h.woken t ht).concat event

/-- Where no message of the type was compared, it is as if the type had just been named. -/
theorem Asked.anew (h : Asked responseType since s)
    (hnone : ∀ m, .compare m ∈ since → m.cmd ≠ responseType) : Asked responseType [] s := by
  have hanswer : ∀ {answer}, ¬ Answers responseType since answer := by
    rintro answer ⟨m, -, hcmd, hsince⟩
    exact hnone m hsince hcmd
  constructor
  · exact h.waits
  · exact fun hc ↦ absurd (h.compared hc) hanswer
  · exact fun hs ↦ absurd (h.signalled hs) hanswer
  · exact h.request
  · exact fun t ht ↦ absurd (h.woken t ht) hanswer

theorem asked_nameType (hidle : s.request = .idle) (hcompared : s.compared = none) :
    Asked responseType [] (s.step (.nameType responseType)).1 := by
  rw [step, if_pos hidle]
  constructor
  · rfl
  · exact fun hne ↦ absurd hcompared hne
  · intro hs
    cases hs
  · intro t ht
    exact (Option.some.inj ht).symm
  · intro t ht
    cases ht

private theorem Asked.withRequest (h : Asked responseType since s) {request : RequestState}
    (htype : ∀ t, request.responseType? = some t → t = responseType)
    (hwoken : ∀ t, request ≠ .woken t) : Asked responseType since { s with request := request } :=
  ⟨h.waits, h.compared, h.signalled, htype, fun t ht ↦ absurd ht (hwoken t)⟩

/-- Every undisturbed step but the naming of the next type keeps this. -/
theorem Asked.step (h : Asked responseType since s) {event : AnswerEvent}
    (hask : event.asks = false) (hwait : event ≠ .wait true) :
    Asked responseType (since ++ [event]) (s.step event).1 := by
  have hkept := h.concat event
  cases event with
  | nameType t => cases hask
  | sendMessage isOk =>
    rw [AnswerWaiter.step]
    split
    · next t ht =>
      have htype : t = responseType := h.request t (by rw [ht]; rfl)
      cases isOk with
      | true =>
        apply hkept.withRequest
        · intro t' ht'
          exact (Option.some.inj ht').symm.trans htype
        · intro t'
          exact RequestState.noConfusion
      | false =>
        apply hkept.withRequest
        · intro t' ht'
          cases ht'
        · intro t'
          exact RequestState.noConfusion
    · exact hkept
  | sendCommandWithoutResponse =>
    rw [AnswerWaiter.step]
    split
    · exact ⟨hkept.waits, hkept.compared, fun hs ↦ absurd hs Bool.false_ne_true, hkept.request,
        hkept.woken⟩
    · exact hkept
  | compare m =>
    rw [AnswerWaiter.step]
    split
    · next hm =>
      refine ⟨hkept.waits, fun _ ↦ ?_, hkept.signalled, hkept.request, hkept.woken⟩
      exact ⟨m, rfl, hm.2.trans h.waits, List.mem_append_right since (List.mem_singleton_self _)⟩
    · exact hkept
  | handOver =>
    rw [AnswerWaiter.step]
    split
    · next m hm =>
      have hanswer : Answers responseType (since ++ [.handOver]) (some m) :=
        hm ▸ hkept.compared (by rw [hm]; exact Option.some_ne_none m)
      exact ⟨hkept.waits, fun hne ↦ absurd rfl hne, fun _ ↦ hanswer, hkept.request,
        fun _ _ ↦ hanswer⟩
    · exact hkept
  | wait spurious =>
    rw [AnswerWaiter.step]
    split
    · next t ht =>
      split
      · next hsignal =>
        have hspurious : spurious = false := Bool.eq_false_iff.mpr fun hs ↦ hwait (by rw [hs])
        rw [hspurious, Bool.or_false] at hsignal
        refine ⟨hkept.waits, hkept.compared, fun hs ↦ absurd hs Bool.false_ne_true, ?_, ?_⟩
        · intro t' ht'
          rw [← Option.some.inj ht']
          exact h.request t (by rw [ht]; rfl)
        · intro _ _
          exact hkept.signalled hsignal
      · exact hkept
    · exact hkept
  | timeout =>
    rw [AnswerWaiter.step]
    split
    · apply hkept.withRequest
      · intro t ht
        cases ht
      · intro t
        exact RequestState.noConfusion
    · exact hkept
  | readAnswer =>
    rw [AnswerWaiter.step]
    split
    · apply hkept.withRequest
      · intro t ht
        cases ht
      · intro t
        exact RequestState.noConfusion
    · exact hkept

private theorem Asked.run (h : Asked responseType [] s) {events : List AnswerEvent}
    (hask : ∀ event ∈ events, event.asks = false) (hwait : .wait true ∉ events) :
    Asked responseType events (emit AnswerWaiter.step s events).1 := by
  induction events using List.reverseRecOn with
  | nil => exact h
  | append_singleton events event ih =>
    have hlast := List.mem_append_right events (List.mem_singleton_self event)
    rw [emit_concat]
    apply Asked.step
    · exact ih (fun e he ↦ hask e (List.mem_append_left _ he))
        fun hw ↦ hwait (List.mem_append_left _ hw)
    · exact hask event hlast
    · intro hw
      exact hwait (hw ▸ hlast)

theorem Asked.readAnswer (h : Asked responseType since s) : ∀ r ∈ (s.step .readAnswer).2,
    r.responseType = responseType ∧ Answers responseType since r.ansPkt := by
  intro r hr
  rw [AnswerWaiter.step] at hr
  split at hr
  · next t ht =>
    rw [List.mem_singleton.mp hr]
    exact ⟨h.request t (by rw [ht]; rfl), h.woken t ht⟩
  · exact absurd hr List.not_mem_nil

private theorem wait_not_mem {events : List AnswerEvent}
    (h : EmitAlong step Undisturbed s events) : .wait true ∉ events := by
  induction events generalizing s with
  | nil => exact List.not_mem_nil
  | cons event events ih =>
    rw [List.mem_cons, not_or]
    exact ⟨fun hw ↦ h.1.2 hw.symm, ih h.2⟩

/-- In an undisturbed run, what a request returns is a message of the type it asked for, and one
that the decoder thread compared after this type was named. If none of this type was compared
before the request was sent, it was compared after that. -/
theorem reply_answers_request {before naming since : List AnswerEvent} {t : UInt8}
    (h : EmitAlong step Undisturbed init
      (before ++ .nameType t :: (naming ++ .sendMessage true :: since)))
    (hask : ∀ event ∈ naming ++ .sendMessage true :: since, event.asks = false) :
    ∀ r ∈ ((emit step init (before ++ .nameType t ::
        (naming ++ .sendMessage true :: since))).1.step .readAnswer).2,
      r.responseType = t ∧ Answers t (naming ++ .sendMessage true :: since) r.ansPkt ∧
        ((∀ m, .compare m ∈ naming → m.cmd ≠ t) → Answers t since r.ansPkt) := by
  rw [emitAlong_append] at h
  obtain ⟨hidle, hcompared⟩ := h.2.1.1 rfl
  have hwait := wait_not_mem h.2.2
  have hnamed : Asked t [] (step _ (.nameType t)).1 := asked_nameType hidle hcompared
  rw [emit_append, emit_cons]
  dsimp only
  generalize (step _ (.nameType t)).1 = named at hnamed ⊢
  intro r hr
  obtain ⟨htype, hanswer⟩ := (hnamed.run hask hwait).readAnswer r hr
  refine ⟨htype, hanswer, ?_⟩
  intro hnone
  have hsending : Asked t [] (emit step named naming).1 :=
    (hnamed.run (fun e he ↦ hask e (List.mem_append_left _ he))
      fun hw ↦ hwait (List.mem_append_left _ hw)).anew hnone
  have hsent : Asked t [] ((emit step named naming).1.step (.sendMessage true)).1 := by
    apply (hsending.step rfl (by decide)).anew
    intro m hm
    cases List.mem_singleton.mp hm
  have hsince := hsent.run
    (fun e he ↦ hask e (List.mem_append_right _ (List.mem_cons_of_mem _ he)))
    fun hw ↦ hwait (List.mem_append_right _ (List.mem_cons_of_mem _ hw))
  rw [emit_append, emit_cons] at hr
  exact (hsince.readAnswer r hr).2

/-- A late answer of another type, and then the answer to a health request. -/
def healthAnswered : List AnswerEvent :=
  [.compare ⟨20, 0x04, []⟩, .compare ⟨3, 0x06, [0, 0, 0]⟩, .handOver, .wait false]

/-- The health request returns the answer to it. -/
theorem reply_answers_request_health :
    ((emit step init ([.nameType 0x04, .sendMessage true, .timeout] ++ .nameType 0x06 ::
        ([.compare ⟨20, 0x04, []⟩] ++ .sendMessage true :: healthAnswered))).1.step
          .readAnswer).2 = [{ responseType := 0x06, ansPkt := some ⟨3, 0x06, [0, 0, 0]⟩ }] ∧
    Answers 0x06 healthAnswered (some ⟨3, 0x06, [0, 0, 0]⟩) := by
  have hundisturbed : EmitAlong step Undisturbed init
      ([.nameType 0x04, .sendMessage true, .timeout] ++ .nameType 0x06 ::
        ([.compare ⟨20, 0x04, []⟩] ++ .sendMessage true :: healthAnswered)) :=
    ⟨by decide, by decide, by decide, by decide, by decide, by decide, by decide, by decide,
      by decide, by decide, trivial⟩
  have hreply := reply_answers_request hundisturbed (by decide)
  refine ⟨by decide, ?_⟩
  apply (hreply { responseType := 0x06, ansPkt := some ⟨3, 0x06, [0, 0, 0]⟩ } (by decide)).2.2
  intro m hm
  rw [AnswerEvent.compare.inj (List.mem_singleton.mp hm)]
  decide

-- a late answer that was compared before the type was named and handed over behind it
example : ((emit step init [.nameType 0x04, .sendMessage true, .compare ⟨20, 0x04, []⟩, .timeout,
    .nameType 0x06, .sendMessage true, .handOver, .wait false]).1.step .readAnswer).2 =
      [{ responseType := 0x06, ansPkt := some ⟨20, 0x04, []⟩ }] := by decide

-- a late answer of the same type, between the naming and the sending of the next request
example : ((emit step init [.nameType 0x06, .sendMessage true, .timeout, .nameType 0x06,
    .compare ⟨3, 0x06, [0, 0, 0]⟩, .handOver, .sendMessage true, .wait false]).1.step
      .readAnswer).2 = [{ responseType := 0x06, ansPkt := some ⟨3, 0x06, [0, 0, 0]⟩ }] := by
  decide

end AnswerWaiter

end MonitoringRobot.Lidar
