import Mathlib.Data.Nat.Init
import MonitoringRobot.Base.Segments

/-!
# Sorting the distances

`quicksort` of the scan matcher
(`edge_packages/src/laser_scan_matcher/csm/src/icp/icp_outliers.cpp:175-195`) sorts a part of a
vector in place. Its left call takes the pivot along, so that the part need not get smaller from
one call to the next. The calls are counted: without any left, or with a position outside the
vector, there is no result.
-/

namespace MonitoringRobot.Matcher
open MonitoringRobot.Base

universe u

variable {α : Type u} [LinearOrder α] {n : Nat}

/-- The loop of `quicksort` for the entries from `l` to `r = l + len`: smaller entries than the
pivot go to the front. -/
def partition (pivot : α) :
    (len l : Nat) → (array : Vector α n) → l + len ≤ n → Vector α n × Nat
  | 0, l, array, _ => (array, l)
  | len + 1, l, array, h =>
    if array[l] < pivot then partition pivot len (l + 1) array (by omega)
    else partition pivot len l (array.swap l (l + len)) (by omega)

/-- What the loop does: it ends between the two parts. -/
theorem partition_spec (pivot : α) {len l : Nat} (array : Vector α n) (h : l + len ≤ n) :
    (l ≤ (partition pivot len l array h).2 ∧ (partition pivot len l array h).2 ≤ l + len) ∧
    Rearranged l (l + len) array (partition pivot len l array h).1 ∧
    (∀ i (hi : i < n), l ≤ i → i < (partition pivot len l array h).2 →
      (partition pivot len l array h).1[i] < pivot) ∧
    (∀ i (hi : i < n), (partition pivot len l array h).2 ≤ i → i < l + len →
      pivot ≤ (partition pivot len l array h).1[i]) := by
  induction len generalizing l array with
  | zero =>
    refine ⟨⟨Nat.le_refl l, Nat.le_refl l⟩, .refl .., ?_, ?_⟩
    · intro i _ hl hr
      exact absurd hr (Nat.not_lt_of_le hl)
    · intro i _ hl hr
      exact absurd hr (Nat.not_lt_of_le hl)
  | succ len ih =>
    rw [partition]
    split
    · next hlt =>
      obtain ⟨⟨hlow, hhigh⟩, hmoved, hless, hgreater⟩ := ih array (by omega : l + 1 + len ≤ n)
      refine ⟨⟨by omega, by omega⟩, hmoved.mono (by omega) (by omega), ?_, ?_⟩
      · intro i hi hl hr
        by_cases heq : i = l
        · subst heq
          rw [hmoved.outside i hi (by omega)]
          exact hlt
        · exact hless i hi (by omega) hr
      · intro i hi hl hr
        exact hgreater i hi hl (by omega)
    · next hge =>
      obtain ⟨⟨hlow, hhigh⟩, hmoved, hless, hgreater⟩ :=
        ih (array.swap l (l + len)) (by omega : l + len ≤ n)
      refine ⟨⟨hlow, by omega⟩, ?_, hless, ?_⟩
      · have hswap : Rearranged l (l + (len + 1)) array (array.swap l (l + len)) :=
          .swap array (by omega) (by omega) (by omega) (by omega) (by omega) (by omega)
        exact hswap.trans (hmoved.mono (by omega) (by omega))
      · intro i hi hl hr
        by_cases heq : i = l + len
        · subst heq
          rw [hmoved.outside _ hi (by omega), Vector.getElem_swap_right]
          exact not_lt.mp hge
        · exact hgreater i hi hl (by omega)

/-- The loop of `quicksort`, and then the pivot in its place; with the value of `r`. -/
def placePivot (array : Vector α n) {b e : Nat} (h : b < e) (he : e < n) : Vector α n × Nat :=
  let split := partition array[b] (e - b) (b + 1) array (by omega)
  have hl : split.2 - 1 < n := by
    have hle : split.2 ≤ b + 1 + (e - b) := (partition_spec array[b] array _).1.2
    omega
  (split.1.swap b (split.2 - 1), split.2)

/-- The number of calls is bounded by the first argument. -/
def quicksort : Nat → Vector α n → Nat → Nat → Option (Vector α n)
  | 0, _, _, _ => none
  | fuel + 1, array, b, e =>
    if h : b < e then
      if he : e < n then
        let pivoted := placePivot array h he
        (if b < pivoted.2 - 1 then quicksort fuel pivoted.1 b (pivoted.2 - 1)
          else some pivoted.1).bind fun left ↦
            if pivoted.2 < e then quicksort fuel left pivoted.2 e else some left
      else none
    else some array

/-- Twice the length of the part, and one more unless its last entry is greater than its first
one. A call that takes the whole part along has just moved its greatest entry to the end. -/
def calls (array : Vector α n) (b e : Nat) : Nat :=
  2 * (e - b) + if h : b < n ∧ e < n then (if array[b] < array[e] then 0 else 1) else 1

/-- With the pivot in its place, both parts are left to sort: everything before it is smaller,
and nothing behind it is. -/
theorem placePivot_spec (array : Vector α n) {b e : Nat} (h : b < e) (he : e < n) :
    (b < (placePivot array h he).2 ∧ (placePivot array h he).2 ≤ e + 1) ∧
    Rearranged b (e + 1) array (placePivot array h he).1 ∧
    (∀ i (hi : i < n), i + 1 = (placePivot array h he).2 →
      (placePivot array h he).1[i] = array[b]) ∧
    (∀ i (hi : i < n), b ≤ i → i + 1 < (placePivot array h he).2 →
      (placePivot array h he).1[i] < array[b]) ∧
    (∀ i (hi : i < n), (placePivot array h he).2 ≤ i → i < e + 1 →
      array[b] ≤ (placePivot array h he).1[i]) := by
  obtain ⟨⟨hlow, hhigh⟩, hmoved, hless, hgreater⟩ :=
    partition_spec array[b] array (by omega : b + 1 + (e - b) ≤ n)
  have hpivot := hmoved.outside b (by omega) (by omega)
  simp only [placePivot]
  refine ⟨⟨by omega, by omega⟩, ?_, ?_, ?_, ?_⟩
  · exact (hmoved.mono (by omega) (by omega)).trans
      (.swap _ (by omega) (by omega) (by omega) (by omega) (by omega) (by omega))
  · intro i hi heq
    have hlast := Nat.eq_sub_of_add_eq heq
    subst hlast
    rw [Vector.getElem_swap_right, hpivot]
  · intro i hi hbi hil
    by_cases heq : i = b
    · subst heq
      rw [Vector.getElem_swap_left]
      exact hless _ _ (by omega) (by omega)
    · rw [Vector.getElem_swap_of_ne heq (by omega)]
      exact hless i hi (by omega) (by omega)
  · intro i hi hli hie
    rw [Vector.getElem_swap_of_ne (by omega) (by omega)]
    exact hgreater i hi hli (by omega)

theorem calls_le (array : Vector α n) (b e : Nat) : calls array b e ≤ 2 * (e - b) + 1 := by
  unfold calls
  split
  · split <;> omega
  · omega

/-- The left call has less to do, even when it takes the whole part along: then the greatest
entry stands at the end. -/
theorem calls_left {array : Vector α n} {b e l : Nat} (hbl : b < l) (hle : l ≤ e) (he : e < n)
    {pivoted : Vector α n} (hlast : l = e → pivoted[b] < pivoted[e])
    (hfirst : l = e → ¬ array[b] < array[e]) : calls pivoted b l < calls array b e := by
  unfold calls
  rw [dif_pos ⟨by omega, by omega⟩, dif_pos ⟨by omega, he⟩]
  by_cases heq : l = e
  · subst heq
    rw [if_pos (hlast rfl), if_neg (hfirst rfl)]
    omega
  · have hone : (if pivoted[b] < pivoted[l] then 0 else 1) ≤ 1 := by split <;> omega
    omega

theorem calls_right {array left : Vector α n} {b e r : Nat} (hbr : b < r) (hre : r < e) :
    calls left r e < calls array b e := by
  have hle := calls_le left r e
  have hge : 2 * (e - b) ≤ calls array b e := Nat.le_add_right ..
  omega

/-- For any entries, equal ones among them, the calls come to an end, no position outside the
part is looked at, and the part is sorted. -/
theorem quicksort_spec {fuel : Nat} (array : Vector α n) {b e : Nat} (hend : b < e → e < n)
    (hfuel : calls array b e < fuel) :
    ∃ sorted, quicksort fuel array b e = some sorted ∧ Rearranged b (e + 1) array sorted ∧
      SortedOn b (e + 1) sorted := by
  induction fuel generalizing array b e with
  | zero => exact absurd hfuel (Nat.not_lt_zero _)
  | succ fuel ih =>
    rw [quicksort]
    by_cases h : b < e
    · have he := hend h
      have hb : b < n := Nat.lt_trans h he
      rw [dif_pos h, dif_pos he]
      obtain ⟨⟨hlow, hhigh⟩, hmoved, hpivot, hless, hgreater⟩ := placePivot_spec array h he
      generalize placePivot array h he = pivoted at *
      have hle : ∀ i (hi : i < n), b ≤ i → i < pivoted.2 → pivoted.1[i] ≤ array[b] := by
        intro i hi hbi hir
        by_cases hlast : i + 1 = pivoted.2
        · exact le_of_eq (hpivot i hi hlast)
        · exact le_of_lt (hless i hi hbi (by omega))
      have hleft : ∃ left, (if b < pivoted.2 - 1 then quicksort fuel pivoted.1 b (pivoted.2 - 1)
          else some pivoted.1) = some left ∧ Rearranged b pivoted.2 pivoted.1 left ∧
            SortedOn b pivoted.2 left := by
        split
        · next hbl =>
          have hcalls : calls pivoted.1 b (pivoted.2 - 1) < fuel := by
            have hlast : pivoted.2 - 1 = e → pivoted.1[b] < pivoted.1[e] := by
              intro heq
              rw [hpivot e he (by omega)]
              exact hless b hb (Nat.le_refl b) (by omega)
            have hfirst : pivoted.2 - 1 = e → ¬ array[b] < array[e] := by
              intro heq
              obtain ⟨j, hj, hbj, hje, hfrom⟩ := hmoved.kept e he (by omega) (by omega)
              rw [not_lt, hfrom]
              exact hle j hj hbj (by omega)
            have hlt := calls_left hbl (by omega) he hlast hfirst
            omega
          have hih := ih pivoted.1 (b := b) (e := pivoted.2 - 1) (by omega) hcalls
          rwa [Nat.sub_add_cancel (by omega)] at hih
        · exact ⟨pivoted.1, rfl, .refl .., sortedOn_of_le (by omega) _⟩
      obtain ⟨left, hcall, hleftMoved, hleftSorted⟩ := hleft
      have hright : ∃ sorted, (if pivoted.2 < e then quicksort fuel left pivoted.2 e
          else some left) = some sorted ∧ Rearranged pivoted.2 (e + 1) left sorted ∧
            SortedOn pivoted.2 (e + 1) sorted := by
        split
        · next hre =>
          have hlt : calls left pivoted.2 e < calls array b e := calls_right hlow hre
          exact ih left (fun _ ↦ he) (by omega)
        · exact ⟨left, rfl, .refl .., sortedOn_of_le (by omega) _⟩
      obtain ⟨sorted, hcall', hrightMoved, hrightSorted⟩ := hright
      refine ⟨sorted, ?_, ?_, ?_⟩
      · dsimp only
        rw [hcall, Option.bind_some, hcall']
      · exact (hmoved.trans (hleftMoved.mono (Nat.le_refl b) hhigh)).trans
          (hrightMoved.mono (Nat.le_of_lt hlow) (Nat.le_refl _))
      · have hstays : ∀ i (hi : i < n), b ≤ i → i < pivoted.2 → sorted[i] = left[i] :=
          fun i hi _ hir ↦ hrightMoved.outside i hi (Or.inl hir)
        have hbelow : ∀ i (hi : i < n), b ≤ i → i < pivoted.2 → sorted[i] ≤ array[b] := by
          intro i hi hbi hir
          rw [hstays i hi hbi hir]
          exact hleftMoved.forall_inside (P := (· ≤ array[b])) hle i hi hbi hir
        have habove : ∀ i (hi : i < n), pivoted.2 ≤ i → i < e + 1 → array[b] ≤ sorted[i] := by
          refine hrightMoved.forall_inside (P := (array[b] ≤ ·)) ?_
          intro i hi hir hie
          rw [hleftMoved.outside i hi (Or.inr hir)]
          exact hgreater i hi hir hie
        exact (hleftSorted.congr hstays).append hrightSorted hbelow habove
    · rw [dif_neg h]
      exact ⟨array, rfl, .refl .., sortedOn_of_le (by omega) array⟩

/-- More calls to spare do not change the result. -/
theorem quicksort_succ {fuel : Nat} {array sorted : Vector α n} {b e : Nat}
    (h : quicksort fuel array b e = some sorted) :
    quicksort (fuel + 1) array b e = some sorted := by
  induction fuel generalizing array sorted b e with
  | zero => cases h
  | succ fuel ih =>
    rw [quicksort] at h ⊢
    by_cases hbe : b < e
    · by_cases he : e < n
      · rw [dif_pos hbe, dif_pos he] at h ⊢
        obtain ⟨left, hleft, hright⟩ := Option.bind_eq_some_iff.mp h
        refine Option.bind_eq_some_iff.mpr ⟨left, ?_, ?_⟩
        · split at hleft
          · next hl => rw [if_pos hl, ih hleft]
          · next hl => rw [if_neg hl, hleft]
        · split at hright
          · next hr => rw [if_pos hr, ih hright]
          · next hr => rw [if_neg hr, hright]
      · rw [dif_pos hbe, dif_neg he] at h
        cases h
    · rw [dif_neg hbe] at h ⊢
      exact h

/-- For any entries, equal ones among them, and any part within the vector, `quicksort` comes to
an end after at most twice as many nested calls as there are entries, and two more; it never
looks at a position outside the part, and it leaves the part sorted and the rest alone. -/
theorem quicksort_sorts (array : Vector α n) {b e : Nat} (he : e < n) :
    ∃ sorted, (∀ fuel, 2 * (e - b) + 2 ≤ fuel → quicksort fuel array b e = some sorted) ∧
      Rearranged b (e + 1) array sorted ∧ SortedOn b (e + 1) sorted := by
  have hcalls : calls array b e < 2 * (e - b) + 2 := Nat.lt_succ_of_le (calls_le array b e)
  obtain ⟨sorted, hcall, hmoved, hsorted⟩ := quicksort_spec array (fun _ ↦ he) hcalls
  refine ⟨sorted, ?_, hmoved, hsorted⟩
  intro fuel hfuel
  induction fuel, hfuel using Nat.le_induction with
  | base => exact hcall
  | succ fuel _ ih => exact quicksort_succ ih

/-- With equal entries; the first call takes the whole part along to its left. -/
theorem quicksort_sorts_five : ∃ sorted : Vector Nat 5,
    (∀ fuel, 10 ≤ fuel → quicksort fuel #v[9, 2, 7, 2, 1] 0 4 = some sorted) ∧
      Rearranged 0 5 #v[9, 2, 7, 2, 1] sorted ∧ SortedOn 0 5 sorted ∧
      quicksort 10 #v[9, 2, 7, 2, 1] 0 4 = some #v[1, 2, 2, 7, 9] := by
  obtain ⟨sorted, hcall, hmoved, hsorted⟩ :=
    quicksort_sorts #v[9, 2, 7, 2, 1] (b := 0) (by decide : 4 < 5)
  exact ⟨sorted, hcall, hmoved, hsorted, by decide⟩

end MonitoringRobot.Matcher
