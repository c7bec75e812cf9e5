import Mathlib.Data.List.Induction

/-!
# Cutting a sequence at marked entries

Entries arrive one by one; a marked entry closes the turn that is open and opens the next.
What arrives while no turn is open belongs to none. A turn may be kept in a buffer of bounded
size whose last place is overwritten when it is full.
-/

namespace MonitoringRobot.Base

universe u

/-- The turns that were closed, oldest first, and the one that is open. No turn is open when
it has no entries. -/
structure Turns (α : Type u) where
  done : List (List α)
  current : List α

namespace Turns

variable {α : Type u} {mark : α → Bool}

/-- No turn was opened. -/
def empty : Turns α := { done := [], current := [] }

/-- The next entry. -/
def push (mark : α → Bool) (t : Turns α) (a : α) : Turns α :=
  if mark a then
    { done := if t.current = [] then t.done else t.done ++ [t.current], current := [a] }
  else if t.current = [] then t else { t with current := t.current ++ [a] }

/-- Give the open turn up. -/
def rewind (t : Turns α) : Turns α := { t with current := [] }

/-- A marked entry and the unmarked ones behind it. -/
def IsTurn (mark : α → Bool) (turn : List α) : Prop :=
  ∃ a rest, turn = a :: rest ∧ mark a = true ∧ ∀ b ∈ rest, mark b = false

/-- Every turn is one, closed or open. -/
structure Valid (mark : α → Bool) (t : Turns α) : Prop where
  done : ∀ turn ∈ t.done, IsTurn mark turn
  current : t.current = [] ∨ IsTurn mark t.current

/-- The turns seen through a map. -/
def map {β : Type u} (f : α → β) (t : Turns α) : Turns β :=
  { done := t.done.map (List.map f), current := t.current.map f }

/-- Entries may be mapped before or behind, as long as the map keeps the mark. -/
theorem push_map {β : Type u} {f : α → β} {mark' : β → Bool} (hmark : ∀ a, mark' (f a) = mark a)
    (t : Turns α) (a : α) : (t.map f).push mark' (f a) = (t.push mark a).map f := by
  have hnil : t.current.map f = [] ↔ t.current = [] := List.map_eq_nil_iff
  rw [push, push, hmark]
  cases mark a with
  | true =>
    simp only [if_true, map, hnil]
    split
    · rfl
    · rw [List.map_append]
      rfl
  | false =>
    simp only [Bool.false_eq_true, if_false, map, hnil]
    split
    · rfl
    · rw [List.map_append]
      rfl

theorem foldl_push_map {β : Type u} {f : α → β} {mark' : β → Bool}
    (hmark : ∀ a, mark' (f a) = mark a) (t : Turns α) (l : List α) :
    (l.map f).foldl (push mark') (t.map f) = (l.foldl (push mark) t).map f := by
  induction l generalizing t with
  | nil => rfl
  | cons a l ih => rw [List.map_cons, List.foldl_cons, List.foldl_cons, push_map hmark, ih]

theorem IsTurn.ne_nil {turn : List α} (h : IsTurn mark turn) : turn ≠ [] := by
  obtain ⟨a, rest, rfl, -⟩ := h
  exact List.cons_ne_nil a rest

theorem IsTurn.concat {turn : List α} (h : IsTurn mark turn) {a : α} (ha : mark a = false) :
    IsTurn mark (turn ++ [a]) := by
  obtain ⟨b, rest, rfl, hb, hrest⟩ := h
  refine ⟨b, rest ++ [a], rfl, hb, ?_⟩
  intro c hc
  cases List.mem_append.mp hc with
  | inl hc => exact hrest c hc
  | inr hc => exact List.mem_singleton.mp hc ▸ ha

theorem IsTurn.map {β : Type u} {f : α → β} {mark' : β → Bool} (hmark : ∀ a, mark' (f a) = mark a)
    {turn : List α} (h : IsTurn mark turn) : IsTurn mark' (turn.map f) := by
  obtain ⟨a, rest, rfl, ha, hrest⟩ := h
  refine ⟨f a, rest.map f, rfl, (hmark a).trans ha, ?_⟩
  intro b hb
  obtain ⟨c, hc, rfl⟩ := List.mem_map.mp hb
  exact (hmark c).trans (hrest c hc)

theorem valid_empty : Valid mark (empty : Turns α) :=
  ⟨fun _ h ↦ absurd h List.not_mem_nil, Or.inl rfl⟩

theorem Valid.push {t : Turns α} (h : t.Valid mark) (a : α) : (t.push mark a).Valid mark := by
  unfold Turns.push
  by_cases ha : mark a = true
  · rw [if_pos ha]
    constructor
    · intro turn hturn
      dsimp only at hturn
      split at hturn
      · exact h.done turn hturn
      · next hne =>
        cases List.mem_append.mp hturn with
        | inl hm => exact h.done turn hm
        | inr hm => exact List.mem_singleton.mp hm ▸ h.current.resolve_left hne
    · exact Or.inr ⟨a, [], rfl, ha, fun b hb ↦ absurd hb List.not_mem_nil⟩
  · rw [if_neg ha]
    split
    · exact h
    · next hne =>
      constructor
      · exact h.done
      · exact Or.inr ((h.current.resolve_left hne).concat (Bool.eq_false_iff.mpr ha))

theorem done_prefix_push (t : Turns α) (a : α) : t.done <+: (t.push mark a).done := by
  unfold Turns.push
  split
  · dsimp only
    split
    · exact List.prefix_refl _
    · exact List.prefix_append _ _
  · split
    · exact List.prefix_refl _
    · exact List.prefix_refl _

theorem done_push_ne_nil {t : Turns α} (h : t.done ≠ []) (a : α) :
    (t.push mark a).done ≠ [] :=
  fun hnil ↦ h (List.prefix_nil.mp (hnil ▸ done_prefix_push t a))

theorem done_push_of_mark {t : Turns α} (h : t.current ≠ []) {a : α} (ha : mark a = true) :
    (t.push mark a).done ≠ [] := by
  rw [Turns.push, if_pos ha, if_neg h]
  exact List.append_ne_nil_of_right_ne_nil _ (List.cons_ne_nil _ _)

theorem Valid.rewind {t : Turns α} (h : t.Valid mark) : t.rewind.Valid mark :=
  ⟨h.done, Or.inl rfl⟩

theorem foldl_push_unmarked {t : Turns α} (ht : t.current ≠ []) {l : List α}
    (hl : ∀ a ∈ l, mark a = false) :
    l.foldl (push mark) t = { t with current := t.current ++ l } := by
  induction l generalizing t with
  | nil => rw [List.foldl_nil, List.append_nil]
  | cons a l ih =>
    have ha := hl a (List.mem_cons_self ..)
    rw [List.foldl_cons, push, ha, if_neg Bool.false_ne_true, if_neg ht, ih]
    · rw [List.append_assoc, List.singleton_append]
    · simp
    · exact fun b hb ↦ hl b (List.mem_cons_of_mem a hb)

theorem foldl_push_turn {turn : List α} (h : IsTurn mark turn) (t : Turns α) :
    turn.foldl (push mark) t =
      { done := if t.current = [] then t.done else t.done ++ [t.current], current := turn } := by
  obtain ⟨a, rest, rfl, ha, hrest⟩ := h
  rw [List.foldl_cons, push, if_pos ha, foldl_push_unmarked (List.cons_ne_nil a []) hrest]
  rfl

/-- Entries before the first marked one belong to no turn. -/
theorem foldl_push_nothing {l : List α} (hl : ∀ a ∈ l, mark a = false) {t : Turns α}
    (ht : t.current = []) : l.foldl (push mark) t = t := by
  induction l with
  | nil => rfl
  | cons a l ih =>
    rw [List.foldl_cons, push, hl a (List.mem_cons_self ..), if_neg Bool.false_ne_true,
      if_pos ht]
    exact ih fun b hb ↦ hl b (List.mem_cons_of_mem a hb)

/-- Of several turns in a row all but the last are closed. -/
theorem foldl_push_turns {turns : List (List α)} (h : ∀ turn ∈ turns, IsTurn mark turn) :
    turns.flatten.foldl (push mark) empty =
      { done := turns.dropLast, current := turns.getLastD [] } := by
  induction turns using List.reverseRecOn with
  | nil => rfl
  | append_singleton turns turn ih =>
    have hturns := fun u hu ↦ h u (List.mem_append_left [turn] hu)
    have hturn := h turn (List.mem_append_right turns (List.mem_singleton_self turn))
    rw [List.flatten_append, List.foldl_append, ih hturns, List.flatten_singleton,
      foldl_push_turn hturn, List.dropLast_concat, List.getLastD_concat]
    congr 1
    cases turns using List.reverseRecOn with
    | nil => rfl
    | append_singleton turns last =>
      have hlast := hturns last (List.mem_append_right turns (List.mem_singleton_self last))
      rw [List.getLastD_concat, if_neg hlast.ne_nil, List.dropLast_concat]

end Turns

/-! ### A buffer that overwrites its last place -/

variable {α : Type u} {n : Nat}

/-- Store an entry in a buffer of `n` places. -/
def store (n : Nat) (buffer : List α) (a : α) : List α :=
  if n ≤ buffer.length then buffer.dropLast ++ [a] else buffer ++ [a]

/-- What is kept of the entries stored one after the other. -/
def fit (n : Nat) (l : List α) : List α :=
  if l.length ≤ n then l else l.take (n - 1) ++ l.getLast?.toList

theorem length_fit_le (hn : 0 < n) (l : List α) : (fit n l).length ≤ n := by
  unfold fit
  split
  · assumption
  · rw [List.length_append, List.length_take]
    cases l.getLast? with
    | none =>
      rw [Option.toList_none, List.length_nil]
      omega
    | some a =>
      rw [Option.toList_some, List.length_singleton]
      omega

theorem fit_eq_nil {l : List α} : fit n l = [] ↔ l = [] := by
  unfold fit
  split
  · rfl
  · next h =>
    have hne : l ≠ [] := by
      intro h0
      subst h0
      exact h (Nat.zero_le n)
    simp [hne]

theorem store_fit (hn : 0 < n) (l : List α) (a : α) :
    store n (fit n l) a = fit n (l ++ [a]) := by
  unfold store fit
  by_cases hlt : l.length < n
  · rw [if_pos (Nat.le_of_lt hlt), if_neg (by omega), if_pos (by simp; omega)]
  · have hlast : (l ++ [a]).getLast?.toList = [a] := by simp
    rw [if_neg (c := (l ++ [a]).length ≤ n) (by simp; omega), hlast,
      List.take_append_of_le_length (by omega)]
    by_cases heq : l.length ≤ n
    · rw [if_pos heq, if_pos (by omega), List.dropLast_eq_take]
      congr 2
      omega
    · rw [if_neg heq]
      have hne : l ≠ [] := by
        intro h0
        subst h0
        exact heq (Nat.zero_le n)
      have hone : l.getLast?.toList = [l.getLast hne] := by
        rw [List.getLast?_eq_some_getLast hne]
        rfl
      have hlen : (l.take (n - 1)).length = n - 1 := by
        rw [List.length_take]
        omega
      rw [hone, if_pos (by simp; omega), List.dropLast_concat]

theorem Turns.IsTurn.fit {mark : α → Bool} {turn : List α} (h : IsTurn mark turn)
    (hn : 2 ≤ n) : IsTurn mark (fit n turn) := by
  unfold Base.fit
  split
  · exact h
  · next hlen =>
    obtain ⟨a, rest, rfl, ha, hrest⟩ := h
    have hne : rest ≠ [] := by
      intro h0
      subst h0
      rw [List.length_singleton] at hlen
      omega
    refine ⟨a, rest.take (n - 2) ++ [rest.getLast hne], ?_, ha, ?_⟩
    · rw [show n - 1 = n - 2 + 1 by omega, List.take_succ_cons,
        List.getLast?_eq_some_getLast (List.cons_ne_nil a rest), List.getLast_cons hne]
      rfl
    · intro b hb
      cases List.mem_append.mp hb with
      | inl hb => exact hrest b (List.mem_of_mem_take hb)
      | inr hb => exact List.mem_singleton.mp hb ▸ hrest _ (List.getLast_mem hne)

end MonitoringRobot.Base
