import Mathlib.Data.List.MinMax
import Mathlib.Order.WithBot

/-!
# Stable arg-max

A loop that keeps the best entry so far, and replaces it only by a strictly better one, returns
the first entry with the greatest value. The result does not see entries that stay below it,
commutes with every map that keeps the values, and does not depend on the order of the entries
when only one has the greatest value.
-/

namespace MonitoringRobot.Base

universe u v w

variable {α : Type u} {β : Type v} {γ : Type w} [LinearOrder β] {f : α → β}

/-- Keep the best value and its entry; before the first entry the value is below all others. -/
def better (f : α → β) (best : WithBot β × Option α) (x : α) : WithBot β × Option α :=
  if best.1 < (f x : WithBot β) then (f x, some x) else best

/-- The loop returns the first entry with the greatest value. -/
theorem foldl_better (f : α → β) (l : List α) : l.foldl (better f) (⊥, none) =
    ((l.argmax f).elim ⊥ fun a ↦ (f a : WithBot β), l.argmax f) := by
  induction l using List.reverseRecOn with
  | nil => rfl
  | append_singleton l x ih =>
    rw [List.foldl_concat, ih, List.argmax_concat]
    cases l.argmax f with
    | none => simp [better]
    | some a =>
      by_cases h : f a < f x
      · simp [better, h]
      · simp [better, h]

/-- The entry is the first one with the greatest value. -/
def FirstMax (f : α → β) (l : List α) (a : α) : Prop :=
  ∃ pre post, l = pre ++ a :: post ∧ (∀ x ∈ pre, f x < f a) ∧ ∀ x ∈ post, f x ≤ f a

namespace FirstMax

variable {l l' : List α} {a : α}

theorem mem (h : FirstMax f l a) : a ∈ l := by
  obtain ⟨pre, post, rfl, -, -⟩ := h
  simp

theorem le (h : FirstMax f l a) : ∀ x ∈ l, f x ≤ f a := by
  obtain ⟨pre, post, rfl, hpre, hpost⟩ := h
  intro x hx
  rcases List.mem_append.mp hx with hx | hx
  · exact (hpre x hx).le
  · rcases List.mem_cons.mp hx with hx | hx
    · rw [hx]
    · exact hpost x hx

theorem cons (h : FirstMax f l a) {x : α} (hx : f x < f a) : FirstMax f (x :: l) a := by
  obtain ⟨pre, post, rfl, hpre, hpost⟩ := h
  refine ⟨x :: pre, post, rfl, ?_, hpost⟩
  intro y hy
  rcases List.mem_cons.mp hy with hy | hy
  · rw [hy]
    exact hx
  · exact hpre y hy

/-- It is the head of the list, or below it and the first maximum of the tail. -/
theorem of_cons {x : α} (h : FirstMax f (x :: l) a) :
    (x = a ∧ ∀ y ∈ l, f y ≤ f a) ∨ (f x < f a ∧ FirstMax f l a) := by
  obtain ⟨pre, post, heq, hpre, hpost⟩ := h
  cases pre with
  | nil =>
    obtain ⟨hx, rfl⟩ := List.cons.inj heq
    exact .inl ⟨hx, hpost⟩
  | cons y pre =>
    obtain ⟨rfl, rfl⟩ := List.cons.inj heq
    refine .inr ⟨hpre x List.mem_cons_self, pre, post, rfl, ?_, hpost⟩
    intro z hz
    exact hpre z (List.mem_cons_of_mem x hz)

theorem exists_of_ne_nil (f : α → β) (h : l ≠ []) : ∃ a, FirstMax f l a := by
  induction l with
  | nil => exact absurd rfl h
  | cons x l ih =>
    cases l with
    | nil => exact ⟨x, [], [], rfl, by simp, by simp⟩
    | cons y l =>
      obtain ⟨a, ha⟩ := ih (List.cons_ne_nil y l)
      by_cases hx : f x < f a
      · exact ⟨a, ha.cons hx⟩
      · refine ⟨x, [], y :: l, rfl, by simp, ?_⟩
        intro z hz
        exact (ha.le z hz).trans (not_lt.mp hx)

theorem argmax_eq (h : FirstMax f l a) : l.argmax f = some a := by
  induction l with
  | nil => exact absurd h.mem (by simp)
  | cons x l ih =>
    rw [List.argmax_cons]
    rcases h.of_cons with ⟨rfl, hle⟩ | ⟨hlt, htail⟩
    · cases hl : l.argmax f with
      | none => rfl
      | some c =>
        have hc : ¬ f x < f c := not_lt.mpr (hle c (List.argmax_mem hl))
        simp only [if_neg hc]
    · simp only [ih htail, if_pos hlt]

/-- A map that keeps the values takes the first maximum with it. -/
theorem map {g : γ → β} {t : α → γ} (h : FirstMax f l a) (ht : ∀ x, g (t x) = f x) :
    FirstMax g (l.map t) (t a) := by
  obtain ⟨pre, post, rfl, hpre, hpost⟩ := h
  refine ⟨pre.map t, post.map t, by simp, ?_, ?_⟩
  · intro y hy
    obtain ⟨x, hx, rfl⟩ := List.mem_map.mp hy
    rw [ht, ht]
    exact hpre x hx
  · intro y hy
    obtain ⟨x, hx, rfl⟩ := List.mem_map.mp hy
    rw [ht, ht]
    exact hpost x hx

/-- When no other entry has the greatest value, every order has the same first maximum. -/
theorem perm (h : FirstMax f l a) (huniq : ∀ x ∈ l, f x = f a → x = a) (hp : l.Perm l') :
    FirstMax f l' a := by
  obtain ⟨b, hb⟩ := exists_of_ne_nil f (List.ne_nil_of_mem (hp.mem_iff.mp h.mem))
  have hmem : b ∈ l := hp.mem_iff.mpr hb.mem
  have hval : f b = f a := le_antisymm (h.le b hmem) (hb.le a (hp.mem_iff.mp h.mem))
  rw [← huniq b hmem hval]
  exact hb

end FirstMax

/-- The arg-max commutes with every map that keeps the values. -/
theorem argmax_map {g : γ → β} {t : α → γ} (ht : ∀ x, g (t x) = f x) (l : List α) :
    (l.map t).argmax g = (l.argmax f).map t := by
  by_cases hl : l = []
  · subst hl
    rfl
  · obtain ⟨a, ha⟩ := FirstMax.exists_of_ne_nil f hl
    rw [ha.argmax_eq, (ha.map ht).argmax_eq]
    rfl

/-- The second list is the first one with further entries, all with the property, put in. -/
inductive Inserted (P : α → Prop) : List α → List α → Prop where
  | nil : Inserted P [] []
  | keep (x : α) {l l' : List α} : Inserted P l l' → Inserted P (x :: l) (x :: l')
  | insert {x : α} {l l' : List α} : P x → Inserted P l l' → Inserted P l (x :: l')

theorem Inserted.mem {P : α → Prop} {l l' : List α} (h : Inserted P l l') {x : α}
    (hx : x ∈ l') : x ∈ l ∨ P x := by
  induction h with
  | nil => cases hx
  | keep y _ ih =>
    rcases List.mem_cons.mp hx with rfl | hx
    · exact .inl List.mem_cons_self
    · exact (ih hx).imp_left (List.mem_cons_of_mem y)
  | insert hy _ ih =>
    rcases List.mem_cons.mp hx with rfl | hx
    · exact .inr hy
    · exact ih hx

/-- Entries put in below the first maximum leave it what it is. -/
theorem FirstMax.inserted {l l' : List α} {a : α} (h : FirstMax f l a)
    (hi : Inserted (fun x ↦ f x < f a) l l') : FirstMax f l' a := by
  induction hi with
  | nil => exact h
  | keep x hi ih =>
    rcases h.of_cons with ⟨rfl, hle⟩ | ⟨hlt, htail⟩
    · refine ⟨[], _, rfl, by simp, ?_⟩
      intro y hy
      rcases hi.mem hy with hy | hy
      · exact hle y hy
      · exact hy.le
    · exact (ih htail).cons hlt
  | insert hx _ ih => exact (ih h).cons hx

end MonitoringRobot.Base
