import Mathlib.Data.List.Infix

/-!
# Splitting and searching sequences

`split` cuts a sequence at the leftmost, non-overlapping occurrences of a separator, as
Python's `str.split(sep)`; `search` tries a matcher at every position from the left, as
`re.search`. The lemmas locate what both find in a concatenation. An occurrence of a literal
cannot lie across a symbol the literal does not hold, nor across the start of another
occurrence when no proper suffix of the literal is also a prefix of it.
-/

namespace MonitoringRobot.Base

universe u v w

variable {α : Type u} {β : Type v} {γ : Type w}

/-- Put a symbol at the front of the first piece. -/
def consHead (c : α) : List (List α) → List (List α)
  | [] => [[c]]
  | piece :: rest => (c :: piece) :: rest

/-- `t.split(sep)` behind `skip` symbols of a separator already found. -/
def splitFrom [DecidableEq α] (sep : List α) : Nat → List α → List (List α)
  | _, [] => [[]]
  | skip + 1, _ :: t => splitFrom sep skip t
  | 0, c :: t =>
    if sep.isPrefixOf (c :: t) then [] :: splitFrom sep (sep.length - 1) t
    else consHead c (splitFrom sep 0 t)

/-- `t.split(sep)`: the pieces between the occurrences of the separator. -/
def split [DecidableEq α] (sep t : List α) : List (List α) := splitFrom sep 0 t

/-- What the matcher returns at the leftmost position where it returns something. -/
def search (m : List α → Option β) : List α → Option β
  | [] => m []
  | c :: t =>
    match m (c :: t) with
    | some v => some v
    | none => search m t

/-- No proper suffix of the literal is a prefix of it. -/
def Unbordered (lit : List α) : Prop :=
  ∀ k < lit.length, 0 < k → ¬ lit.drop k <+: lit

instance [DecidableEq α] (lit : List α) : Decidable (Unbordered lit) :=
  inferInstanceAs (Decidable (∀ k < lit.length, 0 < k → ¬ lit.drop k <+: lit))

/-- A literal that starts before another occurrence of itself ends before it. -/
theorem Unbordered.prefix_of_append {lit s b : List α} (hu : Unbordered lit) (hs : s ≠ [])
    (h : lit <+: s ++ (lit ++ b)) : lit <+: s := by
  by_cases hlen : lit.length ≤ s.length
  · exact List.prefix_of_prefix_length_le h (List.prefix_append _ _) hlen
  · obtain ⟨r, hr⟩ : s <+: lit :=
      List.prefix_of_prefix_length_le (List.prefix_append _ _) h (by omega)
    have hrest : r <+: lit ++ b := by
      apply (List.prefix_append_right_inj s).mp
      rw [hr]
      exact h
    have hshort : r.length ≤ lit.length := by
      rw [← hr, List.length_append]
      omega
    have hdrop : lit.drop s.length = r := by
      rw [← hr, List.drop_left]
    have hborder := List.prefix_of_prefix_length_le hrest (List.prefix_append _ _) hshort
    rw [← hdrop] at hborder
    exact absurd hborder (hu s.length (by omega) (List.length_pos_iff.mpr hs))

/-- A literal at the front ends before the first symbol it does not hold. -/
theorem prefix_of_append_cons {lit a b : List α} {c : α} (hc : c ∉ lit)
    (h : lit <+: a ++ c :: b) : lit <+: a := by
  by_cases hlen : lit.length ≤ a.length
  · exact List.prefix_of_prefix_length_le h (List.prefix_append _ _) hlen
  · have hmem : a ++ [c] <+: lit := by
      apply List.prefix_of_prefix_length_le _ h
      · rw [List.length_append, List.length_singleton]
        omega
      · exact ⟨b, by simp⟩
    exact absurd (hmem.subset (by simp)) hc

/-- A literal lies on one side of a symbol it does not hold. -/
theorem infix_append_cons {lit a b : List α} {c : α} (hc : c ∉ lit)
    (h : lit <:+: a ++ c :: b) : lit <:+: a ∨ lit <:+: b := by
  induction a with
  | nil =>
    rcases List.infix_cons_iff.mp h with hp | hi
    · have hnil := prefix_of_append_cons (a := []) hc hp
      rw [List.prefix_nil.mp hnil]
      exact .inl List.infix_rfl
    · exact .inr hi
  | cons d a ih =>
    rcases List.infix_cons_iff.mp h with hp | hi
    · exact .inl (prefix_of_append_cons (a := d :: a) hc hp).isInfix
    · rcases ih hi with ha | hb
      · exact .inl (List.infix_cons ha)
      · exact .inr hb

theorem search_of_match {m : List α → Option β} {t : List α} {v : β} (h : m t = some v) :
    search m t = some v := by
  cases t with
  | nil => exact h
  | cons c t => simp only [search, h]

theorem exists_of_search {m : List α → Option β} {t : List α} {v : β}
    (h : search m t = some v) : ∃ s, s <:+ t ∧ m s = some v := by
  induction t with
  | nil => exact ⟨[], List.suffix_rfl, h⟩
  | cons c t ih =>
    simp only [search] at h
    split at h
    · next v' hv =>
      exact ⟨c :: t, List.suffix_rfl, hv.trans h⟩
    · obtain ⟨s, hs, hv⟩ := ih h
      exact ⟨s, hs.trans (List.suffix_cons c t), hv⟩

/-- A matcher that starts with a literal finds nothing before the first marker. Both are
compared through `f`. -/
theorem search_append_marker {m : List α → Option β} {f : α → γ} {lit : List γ}
    (hm : ∀ t v, m t = some v → lit <+: t.map f) (hu : Unbordered lit) {a marker : List α}
    (hmarker : marker.map f = lit) (ha : ¬ lit <:+: a.map f) (b : List α) :
    search m (a ++ (marker ++ b)) = search m (marker ++ b) := by
  induction a with
  | nil => rfl
  | cons c a ih =>
    have hnone : m (c :: (a ++ (marker ++ b))) = none := by
      cases hv : m (c :: (a ++ (marker ++ b))) with
      | none => rfl
      | some v =>
        have hp := hm _ _ hv
        rw [← List.cons_append, List.map_append, List.map_append, hmarker] at hp
        exact absurd (hu.prefix_of_append (by simp) hp).isInfix ha
    rw [List.cons_append]
    simp only [search, hnone]
    apply ih
    intro hi
    exact ha (List.infix_cons hi)

/-- A matcher that starts with a literal finds nothing where the literal does not occur. -/
theorem search_eq_none {m : List α → Option β} {f : α → γ} {lit : List γ}
    (hm : ∀ t v, m t = some v → lit <+: t.map f) {t : List α} (h : ¬ lit <:+: t.map f) :
    search m t = none := by
  cases hv : search m t with
  | none => rfl
  | some v =>
    obtain ⟨s, hs, hms⟩ := exists_of_search hv
    have hi : lit <:+: t.map f := (hm s v hms).isInfix.trans (hs.isInfix.map f)
    exact absurd hi h

/-- What a matcher reads lies before a symbol it never reads, if it finds nothing after it. -/
theorem search_append_cons {m : List α → Option β} {Q : List α → β → Prop} {c : α}
    (hm : ∀ s v, m s = some v → ∃ w, w <+: s ∧ Q w v) (hc : ∀ w v, Q w v → c ∉ w)
    {a b : List α} {v : β} (hb : search m b = none) (h : search m (a ++ c :: b) = some v) :
    ∃ w, w <:+: a ∧ Q w v := by
  induction a with
  | nil =>
    simp only [List.nil_append, search] at h
    split at h
    · next v' hv =>
      rw [Option.some.injEq] at h
      subst h
      obtain ⟨w, hw, hq⟩ := hm _ _ hv
      exact ⟨w, (prefix_of_append_cons (a := []) (hc w _ hq) hw).isInfix, hq⟩
    · rw [hb] at h
      cases h
  | cons d a ih =>
    simp only [List.cons_append, search] at h
    split at h
    · next v' hv =>
      rw [Option.some.injEq] at h
      subst h
      obtain ⟨w, hw, hq⟩ := hm _ _ hv
      exact ⟨w, (prefix_of_append_cons (a := d :: a) (hc w _ hq) hw).isInfix, hq⟩
    · obtain ⟨w, hw, hq⟩ := ih h
      exact ⟨w, List.infix_cons hw, hq⟩

section Split

variable [DecidableEq α] {sep : List α}

@[simp] theorem split_nil : split sep [] = [[]] := by
  simp [split, splitFrom]

private theorem splitFrom_length (u t : List α) :
    splitFrom sep u.length (u ++ t) = split sep t := by
  induction u with
  | nil => rfl
  | cons c u ih => exact ih

theorem split_sep_append (hne : sep ≠ []) (t : List α) :
    split sep (sep ++ t) = [] :: split sep t := by
  cases sep with
  | nil => exact absurd rfl hne
  | cons c u =>
    have hp : (c :: u).isPrefixOf (c :: (u ++ t)) = true :=
      List.isPrefixOf_iff_prefix.mpr (List.prefix_append (c :: u) t)
    rw [List.cons_append, split, splitFrom, if_pos hp, List.length_cons, Nat.add_sub_cancel,
      splitFrom_length]

/-- A symbol no separator starts at belongs to the first piece. -/
theorem split_cons {c : α} {t : List α} (h : ¬ sep <+: c :: t) :
    split sep (c :: t) = consHead c (split sep t) := by
  have hp : ¬ sep.isPrefixOf (c :: t) = true := mt List.isPrefixOf_iff_prefix.mp h
  rw [split, splitFrom, if_neg hp]
  rfl

/-- Induction along the cuts: a sequence is empty, starts with a separator, or starts with a
symbol no separator starts at. -/
@[elab_as_elim]
theorem split_induction (hne : sep ≠ []) {motive : List α → Prop} (nil : motive [])
    (sep_append : ∀ t, motive t → motive (sep ++ t))
    (cons : ∀ c t, ¬ sep <+: c :: t → motive t → motive (c :: t)) (t : List α) : motive t := by
  induction hn : t.length using Nat.strong_induction_on generalizing t with
  | _ n ih =>
    cases t with
    | nil => exact nil
    | cons c t =>
      by_cases hp : sep <+: c :: t
      · obtain ⟨r, hr⟩ := hp
        have hpos := List.length_pos_iff.mpr hne
        have hlen : r.length < n := by
          rw [← hn, ← hr, List.length_append]
          omega
        rw [← hr]
        exact sep_append r (ih r.length hlen r rfl)
      · have hlen : t.length < n := by
          rw [← hn, List.length_cons]
          omega
        exact cons c t hp (ih t.length hlen t rfl)

theorem split_ne_nil (hne : sep ≠ []) (t : List α) : split sep t ≠ [] := by
  induction t using split_induction hne with
  | nil => simp
  | sep_append t _ => simp [split_sep_append hne]
  | cons c t hp ih =>
    rw [split_cons hp]
    cases h : split sep t with
    | nil => exact absurd h ih
    | cons piece rest => exact List.cons_ne_nil _ _

theorem split_of_not_infix {t : List α} (h : ¬ sep <:+: t) : split sep t = [t] := by
  induction t with
  | nil => exact split_nil
  | cons c t ih =>
    have ht : ¬ sep <:+: t := fun hi ↦ h (List.infix_cons hi)
    rw [split_cons fun hp ↦ h hp.isInfix, ih ht]
    rfl

/-- An occurrence of an unbordered separator cuts in two halves that are split on their own. -/
theorem split_append_sep (hu : Unbordered sep) (hne : sep ≠ []) (a b : List α) :
    split sep (a ++ (sep ++ b)) = split sep a ++ split sep b := by
  induction a using split_induction hne with
  | nil => exact split_sep_append hne b
  | sep_append a ih =>
    rw [List.append_assoc, split_sep_append hne, split_sep_append hne, ih]
    rfl
  | cons c a hp ih =>
    have hp' : ¬ sep <+: c :: (a ++ (sep ++ b)) := fun h ↦
      hp (hu.prefix_of_append (List.cons_ne_nil c a) h)
    rw [List.cons_append, split_cons hp', split_cons hp, ih]
    cases h : split sep a with
    | nil => exact absurd h (split_ne_nil hne a)
    | cons piece rest => rfl

/-- What precedes a symbol outside the separator stays in the first piece, if no separator
occurs in it. -/
theorem split_append_cons {a b : List α} {c : α} (hc : c ∉ sep) (ha : ¬ sep <:+: a) :
    ∃ piece, split sep (a ++ c :: b) = (a ++ c :: piece) :: (split sep b).tail := by
  have hne : sep ≠ [] := fun h ↦ ha (h ▸ List.nil_infix)
  induction a with
  | nil =>
    have hp : ¬ sep <+: c :: b := fun h ↦
      hne (List.prefix_nil.mp (prefix_of_append_cons (a := []) hc h))
    rw [List.nil_append, split_cons hp]
    cases h : split sep b with
    | nil => exact absurd h (split_ne_nil hne b)
    | cons piece rest => exact ⟨piece, rfl⟩
  | cons d a ih =>
    have hp : ¬ sep <+: d :: (a ++ c :: b) := fun h ↦
      ha (prefix_of_append_cons (a := d :: a) hc h).isInfix
    obtain ⟨piece, hpiece⟩ := ih fun hi ↦ ha (List.infix_cons hi)
    rw [List.cons_append, split_cons hp, hpiece]
    exact ⟨piece, rfl⟩

/-- A piece cut out of `a`, perhaps the last one, which runs on into what follows `a`. -/
def PieceOf (a rest x : List α) (n : Nat) : Prop :=
  ∃ d, d.length + n ≤ a.length ∧ (x = d ∨ x = d ++ rest)

/-- Before a symbol outside the separator and a rest without separators, every later piece is
at least a separator shorter than the whole. -/
theorem split_pieces {b : List α} {c : α} (hne : sep ≠ []) (hc : c ∉ sep) (hb : ¬ sep <:+: b)
    (a : List α) : ∃ piece pieces, split sep (a ++ c :: b) = piece :: pieces ∧
      PieceOf a (c :: b) piece 0 ∧ ∀ x ∈ pieces, PieceOf a (c :: b) x sep.length := by
  induction a using split_induction hne with
  | nil =>
    have hp : ¬ sep <+: c :: b := fun h ↦
      hne (List.prefix_nil.mp (prefix_of_append_cons (a := []) hc h))
    refine ⟨c :: b, [], ?_, ⟨[], le_refl _, .inr rfl⟩, by simp⟩
    rw [List.nil_append, split_cons hp, split_of_not_infix hb]
    rfl
  | sep_append a ih =>
    obtain ⟨piece, pieces, hsplit, ⟨d, hd, hpiece⟩, hpieces⟩ := ih
    refine ⟨[], piece :: pieces, ?_, ⟨[], by simp, .inl rfl⟩, ?_⟩
    · rw [List.append_assoc, split_sep_append hne, hsplit]
    · intro x hx
      have hlen : (sep ++ a).length = sep.length + a.length := List.length_append
      rcases List.mem_cons.mp hx with rfl | hx
      · exact ⟨d, by omega, hpiece⟩
      · obtain ⟨e, he, hxe⟩ := hpieces x hx
        exact ⟨e, by omega, hxe⟩
  | cons e a hp ih =>
    obtain ⟨piece, pieces, hsplit, ⟨d, hd, hpiece⟩, hpieces⟩ := ih
    have hp' : ¬ sep <+: e :: (a ++ c :: b) := fun h ↦
      hp (prefix_of_append_cons (a := e :: a) hc h)
    refine ⟨e :: piece, pieces, ?_, ⟨e :: d, ?_, ?_⟩, ?_⟩
    · rw [List.cons_append, split_cons hp', hsplit]
      rfl
    · rw [List.length_cons, List.length_cons]
      omega
    · rcases hpiece with rfl | rfl
      · exact .inl rfl
      · exact .inr rfl
    · intro x hx
      obtain ⟨f, hf, hxf⟩ := hpieces x hx
      refine ⟨f, ?_, hxf⟩
      rw [List.length_cons]
      omega

end Split

end MonitoringRobot.Base
