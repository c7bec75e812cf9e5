import MonitoringRobot.Base.BoundedQueue

/-!
# Topics

A topic between a publisher and a subscription that both keep a last few messages: a message can be
overwritten on either side before it gets on, but no message overtakes another one, and the newest
one is never overwritten.
-/

namespace MonitoringRobot.Base

universe u

/-- The histories of a publisher and of a subscription. -/
structure Topic (α : Type u) (pubDepth subDepth : Nat) where
  outgoing : BoundedQueue α pubDepth
  incoming : BoundedQueue α subDepth

namespace Topic

variable {α : Type u} {pubDepth subDepth : Nat}

/-- Nothing was published yet. -/
def init : Topic α pubDepth subDepth := ⟨.empty, .empty⟩

def publish (t : Topic α pubDepth subDepth) (x : α) : Topic α pubDepth subDepth :=
  { t with outgoing := t.outgoing.push x }

/-- The oldest outgoing message, if any, arrives. -/
def transport (t : Topic α pubDepth subDepth) : Topic α pubDepth subDepth :=
  match t.outgoing.pop? with
  | none => t
  | some (x, rest) => { outgoing := rest, incoming := t.incoming.push x }

/-- The subscriber takes the oldest message that arrived. -/
def take? (t : Topic α pubDepth subDepth) : Option (α × Topic α pubDepth subDepth) :=
  t.incoming.pop?.map fun taken ↦ (taken.1, { t with incoming := taken.2 })

/-- What the subscriber can still get, in the order of publishing. -/
def pending (t : Topic α pubDepth subDepth) : List α := t.incoming.entries ++ t.outgoing.entries

/-- Nothing is left to arrive or to be taken. -/
def Idle (t : Topic α pubDepth subDepth) : Prop := t.pending = []

instance (t : Topic α pubDepth subDepth) : Decidable t.Idle :=
  decidable_of_iff (t.pending.isEmpty = true) List.isEmpty_iff

/-- A history of a topic: what was taken comes before what is pending, both in the order of
publishing, and the newest message is among them. -/
structure Carries (published taken : List α) (t : Topic α pubDepth subDepth) : Prop where
  inOrder : (taken ++ t.pending).Sublist published
  newest : (taken ++ t.pending).getLast? = published.getLast?

namespace Carries

variable {published taken : List α} {t : Topic α pubDepth subDepth}

theorem init : Carries [] [] (Topic.init : Topic α pubDepth subDepth) where
  inOrder := List.Sublist.refl []
  newest := rfl

theorem push_sublist {depth : Nat} (q : BoundedQueue α depth) (x : α) :
    (q.push x).entries.Sublist (q.entries ++ [x]) :=
  List.drop_sublist _ _

theorem publish (hp : 0 < pubDepth) (h : Carries published taken t) (x : α) :
    Carries (published ++ [x]) taken (t.publish x) where
  inOrder := by
    have hkept : (t.publish x).pending.Sublist (t.pending ++ [x]) := by
      rw [pending, pending, List.append_assoc]
      exact (push_sublist t.outgoing x).append_left _
    apply (hkept.append_left taken).trans
    rw [← List.append_assoc]
    exact h.inOrder.append_right [x]
  newest := by
    rw [pending, List.getLast?_append, List.getLast?_append, Topic.publish,
      BoundedQueue.getLast?_push hp, List.getLast?_concat]
    rfl

theorem transport (hs : 0 < subDepth) (h : Carries published taken t) :
    Carries published taken t.transport := by
  cases hpop : t.outgoing.pop? with
  | none =>
    rw [Topic.transport, hpop]
    exact h
  | some popped =>
    obtain ⟨x, rest⟩ := popped
    have hhead := BoundedQueue.entries_of_pop? hpop
    have hpending : t.transport.pending = (t.incoming.push x).entries ++ rest.entries := by
      rw [Topic.transport, hpop]
      rfl
    have hbefore : t.pending = (t.incoming.entries ++ [x]) ++ rest.entries := by
      rw [pending, hhead, List.append_assoc, List.singleton_append]
    constructor
    · rw [hpending]
      apply List.Sublist.trans _ h.inOrder
      rw [hbefore]
      exact ((push_sublist t.incoming x).append_right rest.entries).append_left taken
    · rw [← h.newest, hpending, hbefore]
      simp only [List.getLast?_append, BoundedQueue.getLast?_push hs, List.getLast?_singleton,
        Option.some_or]

theorem take (h : Carries published taken t) {x : α} {t' : Topic α pubDepth subDepth}
    (htake : t.take? = some (x, t')) : Carries published (taken ++ [x]) t' := by
  obtain ⟨popped, hpop, heq⟩ := Option.map_eq_some_iff.mp htake
  obtain ⟨rfl, rfl⟩ := Prod.mk.inj heq
  have hpending : taken ++ [popped.1] ++ (popped.2.entries ++ t.outgoing.entries) =
      taken ++ t.pending := by
    rw [pending, BoundedQueue.entries_of_pop? hpop]
    simp
  constructor
  · rw [pending, hpending]
    exact h.inOrder
  · rw [pending, hpending]
    exact h.newest

end Carries

/-! ### Draining -/

variable {t t' : Topic α pubDepth subDepth} {x : α}

/-- The steps the pending messages still have to take. -/
def backlog (t : Topic α pubDepth subDepth) : Nat :=
  2 * t.outgoing.entries.length + t.incoming.entries.length

theorem length_push_le {depth : Nat} (q : BoundedQueue α depth) (x : α) :
    (q.push x).entries.length ≤ q.entries.length + 1 := by
  rw [BoundedQueue.push, List.length_drop, List.length_append, List.length_singleton]
  omega

theorem backlog_le (t : Topic α pubDepth subDepth) : t.backlog ≤ 2 * pubDepth + subDepth := by
  have hout := t.outgoing.bounded
  have hin := t.incoming.bounded
  unfold backlog
  omega

theorem backlog_publish_le (t : Topic α pubDepth subDepth) (x : α) :
    (t.publish x).backlog ≤ t.backlog + 2 := by
  have hle := length_push_le t.outgoing x
  simp only [backlog, publish]
  omega

theorem backlog_transport_lt (h : t.outgoing.entries ≠ []) : t.transport.backlog < t.backlog := by
  cases hpop : t.outgoing.pop? with
  | none => exact absurd (BoundedQueue.pop?_eq_none.mp hpop) h
  | some popped =>
    have hlength := congrArg List.length (BoundedQueue.entries_of_pop? hpop)
    have hle := length_push_le t.incoming popped.1
    rw [List.length_cons] at hlength
    simp only [backlog, transport, hpop]
    omega

theorem transport_of_nil (h : t.outgoing.entries = []) : t.transport = t := by
  rw [transport, BoundedQueue.pop?_eq_none.mpr h]

theorem take?_eq_none_iff : t.take? = none ↔ t.incoming.entries = [] := by
  rw [take?, Option.map_eq_none_iff, BoundedQueue.pop?_eq_none]

theorem backlog_of_take? (h : t.take? = some (x, t')) : t'.backlog + 1 = t.backlog := by
  obtain ⟨popped, hpop, heq⟩ := Option.map_eq_some_iff.mp h
  obtain ⟨rfl, rfl⟩ := Prod.mk.inj heq
  have hlength := congrArg List.length (BoundedQueue.entries_of_pop? hpop)
  rw [List.length_cons] at hlength
  simp only [backlog]
  omega

theorem idle_iff : t.Idle ↔ t.incoming.entries = [] ∧ t.outgoing.entries = [] :=
  List.append_eq_nil_iff

end Topic

end MonitoringRobot.Base
