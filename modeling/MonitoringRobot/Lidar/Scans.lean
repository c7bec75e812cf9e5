import Mathlib.Data.Fin.VecNotation
import Mathlib.Logic.Function.Basic
import MonitoringRobot.Base.Turns
import MonitoringRobot.Lidar.Nodes

/-!
# Scans

`ScanDataHolder` (`edge_packages/src/rplidar_ros/sdk/src/sl_lidar_driver.cpp:237-371`)
collects the nodes of a turn in one of two buffers while the other holds the last whole turn.
The decoder thread pushes nodes; a reader waits for the event and takes the lock in two steps,
between which anything else can happen. While it holds the lock nothing changes, so that copying the
scan out is one step. A wait can also return without the event, since the condition variable
under it can wake up spuriously and `Event::wait` does not look at the flag again.
-/

namespace MonitoringRobot.Lidar
open MonitoringRobot.Base MonitoringRobot.Base.Machine

/-- `MAX_SCANNODE_CACHE_COUNT`. -/
def maxScanNodeCacheCount : Nat := 8192

/-- `flag & RPLIDAR_RESP_HQ_FLAG_SYNCBIT`. -/
def HqNode.isSync (n : HqNode) : Bool := n.flag &&& 1 ≠ 0

/-- The members of the holder. An unavailable scan has the id -1 in the source. -/
structure ScanDataHolder where
  scanBeginTimestampUs : Fin 2 → Nat
  scanNodeAvailableId : Option (Fin 2)
  newScanReady : Bool
  dataWaiter : Bool
  scanbuffer : Fin 2 → List HqNode

/-- A scan as the reader gets it. -/
structure Scan where
  beginTimestampUs : Nat
  nodes : List HqNode
deriving DecidableEq, Repr

namespace ScanDataHolder

/-- The constructor; `reset` leaves the same members. -/
def init : ScanDataHolder where
  scanBeginTimestampUs := fun _ ↦ 0
  scanNodeAvailableId := none
  newScanReady := false
  dataWaiter := false
  scanbuffer := fun _ ↦ []

/-- `_getOperationBufferID_locked`. -/
def operationBufferId (h : ScanDataHolder) : Fin 2 :=
  match h.scanNodeAvailableId with
  | none => 0
  | some id => 1 - id

/-- `_finishCurrentScanAndSwap_locked`, and publishing the available scan. -/
def finishCurrentScanAndSwap (h : ScanDataHolder) : ScanDataHolder :=
  { h with
    scanNodeAvailableId := some h.operationBufferId
    scanbuffer := Function.update h.scanbuffer (1 - h.operationBufferId) []
    newScanReady := true
    dataWaiter := true }

/-- The node goes to the end of the operational buffer, or over its last entry. -/
def storeNode (h : ScanDataHolder) (hqNode : HqNode) : ScanDataHolder :=
  { h with
    scanbuffer := Function.update h.scanbuffer h.operationBufferId
      (store maxScanNodeCacheCount (h.scanbuffer h.operationBufferId) hqNode) }

/-- A sync bit closes the current scan, if any, and stores the time of the next one. -/
def beginScan (h : ScanDataHolder) (currentSampleTsUs : Nat) : ScanDataHolder :=
  let swapped := if h.scanbuffer h.operationBufferId ≠ [] then h.finishCurrentScanAndSwap else h
  { swapped with
    scanBeginTimestampUs := Function.update swapped.scanBeginTimestampUs
      swapped.operationBufferId currentSampleTsUs }

/-- `pushScanNodeData`. -/
def pushScanNodeData (h : ScanDataHolder) (currentSampleTsUs : Nat) (hqNode : HqNode) :
    ScanDataHolder :=
  if hqNode.isSync then (h.beginScan currentSampleTsUs).storeNode hqNode
  -- no partial scan is formed
  else if h.scanbuffer h.operationBufferId = [] then h
  else h.storeNode hqNode

/-- `rewindCurrentScanData`. -/
def rewindCurrentScanData (h : ScanDataHolder) : ScanDataHolder :=
  { h with scanbuffer := Function.update h.scanbuffer h.operationBufferId [] }

/-- `reset`. -/
def reset (_ : ScanDataHolder) : ScanDataHolder := init

end ScanDataHolder

/-- The holder and the thread in `waitAndLockAvailableScan`: whether its wait has returned. -/
structure HolderSystem where
  holder : ScanDataHolder
  woken : Bool

/-- What the threads do. -/
inductive HolderEvent where
  | push (timestampUs : Nat) (hqNode : HqNode)
  | rewind
  | reset
  | wait (spurious : Bool)
  | lock
deriving DecidableEq, Repr

/-- What the reader gets when it has the lock: a scan, or a scan id below zero. -/
inductive Grab where
  | scan (s : Scan)
  | assertion
deriving DecidableEq, Repr

namespace HolderSystem

/-- No thread has done anything. -/
def init : HolderSystem := { holder := .init, woken := false }

/-- One step of any thread. Waiting resets the event; the lock is taken by a reader whose wait
has returned. -/
def step (s : HolderSystem) : HolderEvent → HolderSystem × List Grab
  | .push timestampUs hqNode =>
    ({ s with holder := s.holder.pushScanNodeData timestampUs hqNode }, [])
  | .rewind => ({ s with holder := s.holder.rewindCurrentScanData }, [])
  | .reset => ({ s with holder := s.holder.reset }, [])
  | .wait spurious =>
    if s.woken = false ∧ (s.holder.dataWaiter || spurious) then
      ({ holder := { s.holder with dataWaiter := false }, woken := true }, [])
    else (s, [])
  | .lock =>
    if s.woken then
      match s.holder.scanNodeAvailableId with
      | some id =>
        ({ holder := { s.holder with newScanReady := false }, woken := false },
          [.scan { beginTimestampUs := s.holder.scanBeginTimestampUs id
                   nodes := s.holder.scanbuffer id }])
      | none => ({ s with woken := false }, [.assertion])
    else (s, [])

end HolderSystem

/-! ### What the holder is for -/

/-- The turns of the nodes pushed since the last reset, and who knows of them. -/
structure ScanHistory where
  turns : Turns (Nat × HqNode)
  fresh : Bool
  woken : Bool

namespace ScanHistory

/-- The scan of a turn: its begin, and as many nodes as the cache keeps. -/
def scanOf (turn : List (Nat × HqNode)) : Scan where
  beginTimestampUs := (turn.map Prod.fst).headD 0
  nodes := fit maxScanNodeCacheCount (turn.map Prod.snd)

/-- No node was pushed. -/
def init : ScanHistory := { turns := .empty, fresh := false, woken := false }

/-- The same step on the turns: the reader gets the turn closed last. -/
def step (s : ScanHistory) : HolderEvent → ScanHistory × List Grab
  | .push timestampUs hqNode =>
    ({ s with
        turns := s.turns.push (fun entry ↦ entry.2.isSync) (timestampUs, hqNode)
        fresh := s.fresh || (hqNode.isSync && s.turns.current ≠ []) }, [])
  | .rewind => ({ s with turns := s.turns.rewind }, [])
  | .reset => ({ s with turns := .empty, fresh := false }, [])
  | .wait spurious =>
    if s.woken = false ∧ (s.fresh || spurious) then
      ({ s with fresh := false, woken := true }, [])
    else (s, [])
  | .lock =>
    if s.woken then
      match s.turns.done.getLast? with
      | some turn => ({ s with woken := false }, [.scan (scanOf turn)])
      | none => ({ s with woken := false }, [.assertion])
    else (s, [])

end ScanHistory

/-! ### The two buffers keep the last two turns -/

namespace ScanDataHolder

theorem one_sub_ne : ∀ id : Fin 2, 1 - id ≠ id := by decide

theorem push_swap {h : ScanDataHolder} {hqNode : HqNode} (hsync : hqNode.isSync = true)
    (hne : h.scanbuffer h.operationBufferId ≠ []) (t : Nat) : h.pushScanNodeData t hqNode =
      { scanBeginTimestampUs :=
          Function.update h.scanBeginTimestampUs (1 - h.operationBufferId) t
        scanNodeAvailableId := some h.operationBufferId
        newScanReady := true
        dataWaiter := true
        scanbuffer := Function.update h.scanbuffer (1 - h.operationBufferId) [hqNode] } := by
  rw [pushScanNodeData, if_pos hsync, beginScan, if_pos hne]
  change ScanDataHolder.mk _ _ _ _ (Function.update (Function.update h.scanbuffer
    (1 - h.operationBufferId) []) (1 - h.operationBufferId) (store maxScanNodeCacheCount
      (Function.update h.scanbuffer (1 - h.operationBufferId) [] (1 - h.operationBufferId))
      hqNode)) = _
  rw [Function.update_self, Function.update_idem]
  rfl

theorem push_first {h : ScanDataHolder} {hqNode : HqNode} (hsync : hqNode.isSync = true)
    (hnil : h.scanbuffer h.operationBufferId = []) (t : Nat) : h.pushScanNodeData t hqNode =
      { h with
        scanBeginTimestampUs := Function.update h.scanBeginTimestampUs h.operationBufferId t
        scanbuffer := Function.update h.scanbuffer h.operationBufferId [hqNode] } := by
  have hnot : ¬ h.scanbuffer h.operationBufferId ≠ [] := fun hne ↦ hne hnil
  rw [pushScanNodeData, if_pos hsync, beginScan, if_neg hnot]
  change ScanDataHolder.mk _ _ _ _ (Function.update h.scanbuffer h.operationBufferId
    (store maxScanNodeCacheCount (h.scanbuffer h.operationBufferId) hqNode)) = _
  rw [hnil]
  rfl

theorem push_discard {h : ScanDataHolder} {hqNode : HqNode} (hsync : ¬ hqNode.isSync = true)
    (hnil : h.scanbuffer h.operationBufferId = []) (t : Nat) :
    h.pushScanNodeData t hqNode = h := by
  rw [pushScanNodeData, if_neg hsync, if_pos hnil]

theorem push_more {h : ScanDataHolder} {hqNode : HqNode} (hsync : ¬ hqNode.isSync = true)
    (hne : h.scanbuffer h.operationBufferId ≠ []) (t : Nat) :
    h.pushScanNodeData t hqNode = h.storeNode hqNode := by
  rw [pushScanNodeData, if_neg hsync, if_neg hne]

end ScanDataHolder

/-- The holder keeps the turn closed last in the available buffer, and the open one in the
operational buffer. -/
structure Kept (c : HolderSystem) (a : ScanHistory) : Prop where
  woken : c.woken = a.woken
  fresh : c.holder.dataWaiter = a.fresh
  unavailable : c.holder.scanNodeAvailableId = none → a.turns.done = []
  available : ∀ id, c.holder.scanNodeAvailableId = some id →
    ∃ turn, a.turns.done.getLast? = some turn ∧
      { beginTimestampUs := c.holder.scanBeginTimestampUs id
        nodes := c.holder.scanbuffer id } = ScanHistory.scanOf turn
  nodes : c.holder.scanbuffer c.holder.operationBufferId =
    fit maxScanNodeCacheCount (a.turns.current.map Prod.snd)
  begins : a.turns.current ≠ [] → c.holder.scanBeginTimestampUs c.holder.operationBufferId =
    (a.turns.current.map Prod.fst).headD 0

namespace Kept

variable {c : HolderSystem} {a : ScanHistory}

theorem init : Kept HolderSystem.init ScanHistory.init := by
  constructor
  · rfl
  · rfl
  · exact fun _ ↦ rfl
  · intro id h
    cases h
  · rfl
  · exact fun h ↦ absurd rfl h

/-- The operational buffer is empty when no turn is open. -/
theorem buffer_eq_nil (h : Kept c a) :
    c.holder.scanbuffer c.holder.operationBufferId = [] ↔ a.turns.current = [] := by
  rw [h.nodes, fit_eq_nil, List.map_eq_nil_iff]

theorem ne_available {id : Fin 2} (h : c.holder.scanNodeAvailableId = some id) :
    id ≠ c.holder.operationBufferId := by
  rw [ScanDataHolder.operationBufferId, h]
  exact (ScanDataHolder.one_sub_ne id).symm

theorem fit_singleton (n : HqNode) : fit maxScanNodeCacheCount [n] = [n] := by
  have hpos : 1 ≤ maxScanNodeCacheCount := by decide
  exact if_pos hpos

theorem push_first (h : Kept c a) {t : Nat} {n : HqNode} (hsync : n.isSync = true)
    (hcurrent : a.turns.current = []) :
    Kept (c.step (.push t n)).1 (a.step (.push t n)).1 := by
  have hbuffer := h.buffer_eq_nil.mpr hcurrent
  simp only [HolderSystem.step, ScanHistory.step, ScanDataHolder.push_first hsync hbuffer,
    Turns.push, hsync, if_true, if_pos hcurrent]
  constructor
  · exact h.woken
  · simp only [hcurrent, h.fresh, ne_eq, not_true_eq_false, decide_false, Bool.and_false,
      Bool.or_false]
  · exact h.unavailable
  · intro id hid
    have hne := ne_available (c := c) hid
    simp only [Function.update_of_ne hne]
    exact h.available id hid
  · change Function.update _ _ _ c.holder.operationBufferId = _
    rw [Function.update_self]
    exact (fit_singleton n).symm
  · intro _
    exact Function.update_self ..

theorem push_swap (h : Kept c a) {t : Nat} {n : HqNode} (hsync : n.isSync = true)
    (hcurrent : a.turns.current ≠ []) :
    Kept (c.step (.push t n)).1 (a.step (.push t n)).1 := by
  have hbuffer := mt h.buffer_eq_nil.mp hcurrent
  simp only [HolderSystem.step, ScanHistory.step, ScanDataHolder.push_swap hsync hbuffer,
    Turns.push, hsync, if_true, if_neg hcurrent]
  constructor
  · exact h.woken
  · simp only [ne_eq, hcurrent, not_false_eq_true, decide_true, Bool.and_true, Bool.or_true]
  · intro hid
    cases hid
  · intro id hid
    rw [← Option.some.inj hid]
    have hne := (ScanDataHolder.one_sub_ne c.holder.operationBufferId).symm
    refine ⟨a.turns.current, List.getLast?_concat, ?_⟩
    simp only [Function.update_of_ne hne]
    rw [ScanHistory.scanOf, h.nodes, h.begins hcurrent]
  · change Function.update _ _ _ (1 - c.holder.operationBufferId) = _
    rw [Function.update_self]
    exact (fit_singleton n).symm
  · intro _
    exact Function.update_self ..

theorem push_more (h : Kept c a) {t : Nat} {n : HqNode} (hsync : ¬ n.isSync = true)
    (hcurrent : a.turns.current ≠ []) :
    Kept (c.step (.push t n)).1 (a.step (.push t n)).1 := by
  have hbuffer := mt h.buffer_eq_nil.mp hcurrent
  simp only [HolderSystem.step, ScanHistory.step, ScanDataHolder.push_more hsync hbuffer,
    Turns.push, if_neg hsync, if_neg hcurrent]
  constructor
  · exact h.woken
  · simp only [ScanDataHolder.storeNode, h.fresh, Bool.eq_false_iff.mpr hsync, Bool.false_and,
      Bool.or_false]
  · exact h.unavailable
  · intro id hid
    have hne := ne_available (c := c) hid
    simp only [ScanDataHolder.storeNode, Function.update_of_ne hne]
    exact h.available id hid
  · have hpos : 0 < maxScanNodeCacheCount := by decide
    change Function.update c.holder.scanbuffer c.holder.operationBufferId
      (store maxScanNodeCacheCount _ n) c.holder.operationBufferId = _
    rw [Function.update_self, h.nodes, store_fit hpos, List.map_append]
    rfl
  · intro _
    have hbegins := h.begins hcurrent
    change c.holder.scanBeginTimestampUs c.holder.operationBufferId = _
    rw [hbegins]
    cases hlist : a.turns.current with
    | nil => exact absurd hlist hcurrent
    | cons entry rest => rfl

theorem push (h : Kept c a) (t : Nat) (n : HqNode) :
    Kept (c.step (.push t n)).1 (a.step (.push t n)).1 := by
  by_cases hcurrent : a.turns.current = []
  · by_cases hsync : n.isSync = true
    · exact h.push_first hsync hcurrent
    · have hbuffer := h.buffer_eq_nil.mpr hcurrent
      have hfresh : (a.fresh || (n.isSync && decide (a.turns.current ≠ []))) = a.fresh := by
        rw [Bool.eq_false_iff.mpr hsync, Bool.false_and, Bool.or_false]
      simp only [HolderSystem.step, ScanHistory.step, ScanDataHolder.push_discard hsync hbuffer,
        Turns.push, if_neg hsync, if_pos hcurrent, hfresh]
      exact h
  · by_cases hsync : n.isSync = true
    · exact h.push_swap hsync hcurrent
    · exact h.push_more hsync hcurrent

/-- A step of any thread keeps the last two turns, and the reader gets the last closed one. -/
theorem step (h : Kept c a) (event : HolderEvent) :
    Kept (c.step event).1 (a.step event).1 ∧ (c.step event).2 = (a.step event).2 := by
  cases event with
  | push t n => exact ⟨h.push t n, rfl⟩
  | rewind =>
    refine ⟨?_, rfl⟩
    constructor
    · exact h.woken
    · exact h.fresh
    · exact h.unavailable
    · intro id hid
      have hne := ne_available (c := c) hid
      simp only [HolderSystem.step, ScanDataHolder.rewindCurrentScanData,
        Function.update_of_ne hne]
      exact h.available id hid
    · change Function.update _ _ _ c.holder.operationBufferId = _
      rw [Function.update_self]
      rfl
    · exact fun hne ↦ absurd rfl hne
  | reset =>
    refine ⟨?_, rfl⟩
    have hinit := Kept.init
    exact ⟨h.woken, rfl, hinit.unavailable, hinit.available, hinit.nodes, hinit.begins⟩
  | wait spurious =>
    simp only [HolderSystem.step, ScanHistory.step, h.woken, h.fresh]
    split
    · exact ⟨⟨rfl, rfl, h.unavailable, h.available, h.nodes, h.begins⟩, rfl⟩
    · exact ⟨h, rfl⟩
  | lock =>
    cases hwoken : a.woken with
    | false =>
      have hc : c.step .lock = (c, []) := by
        simp only [HolderSystem.step, h.woken, hwoken, Bool.false_eq_true, if_false]
      have ha : a.step .lock = (a, []) := by
        simp only [ScanHistory.step, hwoken, Bool.false_eq_true, if_false]
      rw [hc, ha]
      exact ⟨h, rfl⟩
    | true =>
      cases hid : c.holder.scanNodeAvailableId with
      | none =>
        have hc : c.step .lock = ({ c with woken := false }, [.assertion]) := by
          simp only [HolderSystem.step, h.woken, hwoken, if_true, hid]
        have ha : a.step .lock = ({ a with woken := false }, [.assertion]) := by
          simp only [ScanHistory.step, hwoken, if_true, h.unavailable hid, List.getLast?_nil]
        rw [hc, ha]
        exact ⟨⟨rfl, h.fresh, h.unavailable, h.available, h.nodes, h.begins⟩, rfl⟩
      | some id =>
        obtain ⟨turn, hturn, hscan⟩ := h.available id hid
        have hc : c.step .lock = (⟨{ c.holder with newScanReady := false }, false⟩,
            [.scan (ScanHistory.scanOf turn)]) := by
          simp only [HolderSystem.step, h.woken, hwoken, if_true, hid, hscan]
        have ha : a.step .lock =
            ({ a with woken := false }, [.scan (ScanHistory.scanOf turn)]) := by
          simp only [ScanHistory.step, hwoken, if_true, hturn]
        rw [hc, ha]
        exact ⟨⟨rfl, h.fresh, h.unavailable, h.available, h.nodes, h.begins⟩, rfl⟩

end Kept

/-- In any order of the threads' steps, the reader gets what it would get of the list of all
turns: the one closed last since the last reset, cut to the cache, with the time of its first node,
or the failed assertion when there is none. -/
theorem reader_gets_last (events : List HolderEvent) :
    (emit HolderSystem.step .init events).2 = (emit ScanHistory.step .init events).2 :=
  (emit_simulation (R := Kept) (fun _ _ event h ↦ h.step event) Kept.init events).2

/-- A scan of one turn: its first node has the sync bit, no other one has it, and it fits the
cache. -/
def Scan.Whole (s : Scan) : Prop :=
  Turns.IsTurn HqNode.isSync s.nodes ∧ s.nodes.length ≤ maxScanNodeCacheCount

theorem ScanHistory.whole_scanOf {turn : List (Nat × HqNode)}
    (h : Turns.IsTurn (fun entry ↦ entry.2.isSync) turn) : (scanOf turn).Whole := by
  have hpos : 2 ≤ maxScanNodeCacheCount := by decide
  constructor
  · have hnodes : Turns.IsTurn HqNode.isSync (turn.map Prod.snd) := h.map fun _ ↦ rfl
    exact hnodes.fit hpos
  · exact length_fit_le (by omega) _

theorem ScanHistory.valid_step {a : ScanHistory}
    (h : a.turns.Valid fun entry ↦ entry.2.isSync) (event : HolderEvent) :
    ((a.step event).1.turns.Valid fun entry ↦ entry.2.isSync) ∧
      ∀ g ∈ (a.step event).2, ∀ s, g = .scan s → s.Whole := by
  cases event with
  | push t n => exact ⟨h.push (t, n), fun g hg ↦ absurd hg List.not_mem_nil⟩
  | rewind => exact ⟨h.rewind, fun g hg ↦ absurd hg List.not_mem_nil⟩
  | reset => exact ⟨Turns.valid_empty, fun g hg ↦ absurd hg List.not_mem_nil⟩
  | wait spurious =>
    simp only [step]
    split
    · exact ⟨h, fun g hg ↦ absurd hg List.not_mem_nil⟩
    · exact ⟨h, fun g hg ↦ absurd hg List.not_mem_nil⟩
  | lock =>
    simp only [step]
    split
    · split
      · next turn hturn =>
        refine ⟨h, ?_⟩
        intro g hg s hs
        rw [List.mem_singleton.mp hg] at hs
        rw [← Grab.scan.inj hs]
        exact whole_scanOf (h.done turn (List.mem_of_getLast? hturn))
      · refine ⟨h, ?_⟩
        intro g hg s hs
        rw [List.mem_singleton.mp hg] at hs
        cases hs
    · exact ⟨h, fun g hg ↦ absurd hg List.not_mem_nil⟩

/-- The node of an event, with its time. -/
def HolderEvent.entry : HolderEvent → Option (Nat × HqNode)
  | .push timestampUs hqNode => some (timestampUs, hqNode)
  | _ => none

/-- An event that gives no turn up. -/
def HolderEvent.KeepsTurns (event : HolderEvent) : Prop := event ≠ .rewind ∧ event ≠ .reset

/-- An event that gives no turn up extends the turns by its node. -/
theorem ScanHistory.turns_step (a : ScanHistory) {event : HolderEvent} (h : event.KeepsTurns) :
    (a.step event).1.turns =
      event.entry.toList.foldl (Turns.push fun entry ↦ entry.2.isSync) a.turns := by
  cases event with
  | push t n => rfl
  | rewind => exact absurd rfl h.1
  | reset => exact absurd rfl h.2
  | wait spurious =>
    simp only [step]
    split <;> rfl
  | lock =>
    simp only [step]
    split
    · split <;> rfl
    · rfl

theorem ScanHistory.turns_run (a : ScanHistory) {events : List HolderEvent}
    (h : ∀ event ∈ events, event.KeepsTurns) : (emit step a events).1.turns =
      (events.filterMap HolderEvent.entry).foldl (Turns.push fun entry ↦ entry.2.isSync)
        a.turns := by
  induction events generalizing a with
  | nil => rfl
  | cons event events ih =>
    have hrest := ih (a.step event).1 fun e he ↦ h e (List.mem_cons_of_mem event he)
    rw [emit_cons, hrest, turns_step a (h event (List.mem_cons_self ..))]
    cases hentry : event.entry with
    | none => rw [List.filterMap_cons_none hentry]; rfl
    | some entry => rw [List.filterMap_cons_some hentry]; rfl

/-- What the reader got, when it is one of the closed turns. -/
def Grab.Among (turns : Turns (Nat × HqNode)) (g : Grab) : Prop :=
  g = .assertion ∨ ∃ turn ∈ turns.done, g = .scan (ScanHistory.scanOf turn)

/-- While no turn is given up, every scan the reader gets is among the closed turns. -/
theorem ScanHistory.grabs_among (a : ScanHistory) {events : List HolderEvent}
    (h : ∀ event ∈ events, event.KeepsTurns) :
    ∀ g ∈ (emit step a events).2, Grab.Among (emit step a events).1.turns g := by
  refine emit_history (P := fun (b : ScanHistory) out ↦ ∀ g ∈ out, Grab.Among b.turns g) ?_ ?_
  · exact fun g hg ↦ absurd hg List.not_mem_nil
  · intro b out event he hout g hg
    have hkeep : ∀ c : Grab, c.Among b.turns → c.Among (b.step event).1.turns := by
      intro c hc
      rw [turns_step b (h event he)]
      cases event.entry with
      | none => exact hc
      | some entry =>
        refine hc.imp id ?_
        rintro ⟨turn, hturn, hscan⟩
        have hprefix : b.turns.done <+: (b.turns.push (fun entry ↦ entry.2.isSync) entry).done :=
          Turns.done_prefix_push b.turns entry
        exact ⟨turn, hprefix.subset hturn, hscan⟩
    cases List.mem_append.mp hg with
    | inl hg => exact hkeep g (hout g hg)
    | inr hg =>
      apply hkeep
      cases event with
      | push t n => exact absurd hg List.not_mem_nil
      | rewind => exact absurd hg List.not_mem_nil
      | reset => exact absurd hg List.not_mem_nil
      | wait spurious =>
        simp only [step] at hg
        split at hg <;> exact absurd hg List.not_mem_nil
      | lock =>
        simp only [step] at hg
        split at hg
        · split at hg
          · next turn hturn =>
            exact Or.inr ⟨turn, List.mem_of_getLast? hturn, List.mem_singleton.mp hg⟩
          · exact Or.inl (List.mem_singleton.mp hg)
        · exact absurd hg List.not_mem_nil

/-- No reset falls between a wait that returned and its lock, and no wait wakes up
spuriously. -/
def HolderSystem.Undisturbed (c : HolderSystem) (event : HolderEvent) : Prop :=
  (event = .reset → c.woken = false) ∧ event ≠ .wait true

/-- While undisturbed, the reader finds a closed turn. -/
structure ScanHistory.Ready (a : ScanHistory) : Prop where
  fresh : a.fresh = true → a.turns.done ≠ []
  woken : a.woken = true → a.turns.done ≠ []

/-- An undisturbed step keeps the reader from the failed assertion. -/
theorem ScanHistory.Ready.step {a : ScanHistory} (h : a.Ready) {event : HolderEvent}
    (hreset : event = .reset → a.woken = false) (hwait : event ≠ .wait true) :
    (a.step event).1.Ready ∧ Grab.assertion ∉ (a.step event).2 := by
  cases event with
  | push t n =>
    refine ⟨?_, List.not_mem_nil⟩
    constructor
    · intro hfresh
      cases Bool.or_eq_true_iff.mp hfresh with
      | inl hold => exact Turns.done_push_ne_nil (h.fresh hold) _
      | inr hnew =>
        rw [Bool.and_eq_true_iff, decide_eq_true_iff] at hnew
        exact Turns.done_push_of_mark hnew.2 hnew.1
    · intro hwoken
      exact Turns.done_push_ne_nil (h.woken hwoken) _
  | rewind => exact ⟨⟨h.fresh, h.woken⟩, List.not_mem_nil⟩
  | reset =>
    refine ⟨?_, List.not_mem_nil⟩
    constructor
    · intro hfresh
      cases hfresh
    · intro hwoken
      have hidle : a.woken = false := hreset rfl
      exact absurd (hidle.symm.trans hwoken) Bool.false_ne_true
  | wait spurious =>
    cases spurious with
    | true => exact absurd rfl hwait
    | false =>
      simp only [ScanHistory.step, Bool.or_false]
      split
      · next hcond =>
        refine ⟨?_, List.not_mem_nil⟩
        constructor
        · intro hfresh
          cases hfresh
        · intro _
          exact h.fresh hcond.2
      · exact ⟨h, List.not_mem_nil⟩
  | lock =>
    simp only [ScanHistory.step]
    split
    · next hwoken =>
      have hdone := h.woken hwoken
      rw [List.getLast?_eq_some_getLast hdone]
      refine ⟨⟨h.fresh, fun hw ↦ absurd hw Bool.false_ne_true⟩, ?_⟩
      simp
    · exact ⟨h, List.not_mem_nil⟩

/-- What every reachable state of the holder keeps. -/
def HolderSystem.Reachable (c : HolderSystem) : Prop :=
  ∃ a, Kept c a ∧ a.turns.Valid fun entry ↦ entry.2.isSync

/-- Whatever the threads do, every scan the reader gets is one whole turn. -/
theorem scans_whole (events : List HolderEvent) :
    ∀ g ∈ (emit HolderSystem.step .init events).2, ∀ s, g = .scan s → s.Whole := by
  refine (emit_forall (P := HolderSystem.Reachable)
    (Q := fun g : Grab ↦ ∀ s, g = .scan s → s.Whole)
    ⟨.init, Kept.init, Turns.valid_empty⟩ ?_ events).2
  rintro c event ⟨a, hkept, hvalid⟩
  have hstep := hkept.step event
  have hnext := ScanHistory.valid_step hvalid event
  rw [hstep.2]
  exact ⟨⟨_, hstep.1, hnext.1⟩, hnext.2⟩

/-- A turn of two nodes is closed behind a reset and taken. -/
theorem scans_whole_short : Scan.Whole
    { beginTimestampUs := 1, nodes := [⟨0, 400, 188, 1⟩, ⟨8192, 400, 188, 2⟩] } :=
  scans_whole [.reset, .push 1 ⟨0, 400, 188, 1⟩, .push 2 ⟨8192, 400, 188, 2⟩,
    .push 3 ⟨0, 400, 188, 1⟩, .wait false, .lock] _ (by decide) _ rfl

/-- When no reset falls between a wait and its lock and no wait wakes up spuriously, the
reader always has an available scan. -/
theorem reader_never_asserts {events : List HolderEvent}
    (h : EmitAlong HolderSystem.step HolderSystem.Undisturbed .init events) :
    Grab.assertion ∉ (emit HolderSystem.step .init events).2 := by
  have hrun := emit_forall_along (G := HolderSystem.Undisturbed)
    (P := fun c ↦ ∃ a, Kept c a ∧ a.Ready) (Q := fun g ↦ g ≠ .assertion) ?_
    ⟨.init, Kept.init, ⟨fun hf ↦ absurd hf Bool.false_ne_true,
      fun hw ↦ absurd hw Bool.false_ne_true⟩⟩ h
  · exact fun hmem ↦ hrun.2 _ hmem rfl
  · rintro c event ⟨a, hkept, hready⟩ ⟨hreset, hwait⟩
    have hstep := hkept.step event
    have hnext := hready.step (fun he ↦ hkept.woken ▸ hreset he) hwait
    rw [hstep.2]
    refine ⟨⟨_, hstep.1, hnext.1⟩, ?_⟩
    rintro g hg rfl
    exact hnext.2 hg

/-- In such a run it is there. -/
theorem reader_never_asserts_short :
    Grab.assertion ∉ (emit HolderSystem.step .init
      [.reset, .push 1 ⟨0, 400, 188, 1⟩, .push 2 ⟨8192, 400, 188, 2⟩, .push 3 ⟨0, 400, 188, 1⟩,
        .wait false, .lock]).2 :=
  reader_never_asserts ⟨⟨fun _ ↦ rfl, by decide⟩, ⟨by decide, by decide⟩,
    ⟨by decide, by decide⟩, ⟨by decide, by decide⟩, ⟨by decide, by decide⟩,
    ⟨by decide, by decide⟩, trivial⟩

end MonitoringRobot.Lidar
