import Mathlib.Data.List.Basic

/-!
# Bounded first-in first-out queues

A queue of bounded depth that drops its oldest entry when a new one does not fit, as a
`KEEP_LAST` history does. The bound is part of the type.
-/

namespace MonitoringRobot.Base

universe u

/-- A queue holding at most `depth` entries, oldest first. -/
structure BoundedQueue (α : Type u) (depth : Nat) where
  entries : List α
  bounded : entries.length ≤ depth

namespace BoundedQueue

variable {α : Type u} {depth : Nat}

/-- The queue without entries. -/
def empty : BoundedQueue α depth := ⟨[], Nat.zero_le _⟩

/-- Append an entry at the end; as many of the oldest entries leave as do not fit. -/
def push (q : BoundedQueue α depth) (x : α) : BoundedQueue α depth :=
  ⟨(q.entries ++ [x]).drop (q.entries.length + 1 - depth), by
    rw [List.length_drop, List.length_append, List.length_singleton]
    omega⟩

/-- Take the oldest entry; `none` when the queue is empty. -/
def pop? (q : BoundedQueue α depth) : Option (α × BoundedQueue α depth) :=
  match hq : q.entries with
  | [] => none
  | x :: rest => some (x, ⟨rest, by
      have h := q.bounded
      rw [hq, List.length_cons] at h
      omega⟩)

@[simp] theorem entries_empty : (empty : BoundedQueue α depth).entries = [] := rfl

/-- Every entry after a push was there before or is the new one. -/
theorem mem_push {q : BoundedQueue α depth} {x y : α} (h : y ∈ (q.push x).entries) :
    y ∈ q.entries ∨ y = x := by
  have hm := List.mem_of_mem_drop h
  simpa using hm

/-- A queue with room for one entry ends with the entry pushed last. -/
theorem getLast?_push (hd : 0 < depth) (q : BoundedQueue α depth) (x : α) :
    (q.push x).entries.getLast? = some x := by
  have hq := q.bounded
  unfold push
  rw [List.getLast?_drop, List.length_append, List.length_singleton,
    if_neg (by omega), List.getLast?_append]
  rfl

theorem pop?_eq_none {q : BoundedQueue α depth} : q.pop? = none ↔ q.entries = [] := by
  unfold pop?
  split
  · next h => simp [h]
  · next x rest h => simp [h]

theorem entries_of_pop? {q r : BoundedQueue α depth} {x : α} (h : q.pop? = some (x, r)) :
    q.entries = x :: r.entries := by
  unfold pop? at h
  split at h
  · cases h
  · next y rest hq =>
    obtain ⟨rfl, rfl⟩ := Prod.mk.inj (Option.some.inj h)
    exact hq

end BoundedQueue

end MonitoringRobot.Base
