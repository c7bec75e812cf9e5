import Mathlib.Data.Nat.Basic
import Mathlib.Order.Lattice

/-!
# Segments of a vector

A program that sorts in place moves the entries between two positions and leaves the others
where they are. A segment goes from its first position up to, and not including, its last one.
-/

namespace MonitoringRobot.Base

universe u

variable {α : Type u} {n : Nat}

/-- The second vector is the first one with the entries of a segment moved around within it:
every entry of the segment is from there, and is still there. -/
structure Rearranged (b e : Nat) (xs ys : Vector α n) : Prop where
  perm : ys.Perm xs
  outside : ∀ i (h : i < n), i < b ∨ e ≤ i → ys[i] = xs[i]
  inside : ∀ i (h : i < n), b ≤ i → i < e → ∃ j, ∃ h : j < n, b ≤ j ∧ j < e ∧ ys[i] = xs[j]
  kept : ∀ i (h : i < n), b ≤ i → i < e → ∃ j, ∃ h : j < n, b ≤ j ∧ j < e ∧ xs[i] = ys[j]

namespace Rearranged

variable {b e b' e' : Nat} {xs ys zs : Vector α n}

theorem refl (b e : Nat) (xs : Vector α n) : Rearranged b e xs xs where
  perm := .refl xs
  outside := fun _ _ _ ↦ rfl
  inside := fun i h hb he ↦ ⟨i, h, hb, he, rfl⟩
  kept := fun i h hb he ↦ ⟨i, h, hb, he, rfl⟩

theorem symm (h : Rearranged b e xs ys) : Rearranged b e ys xs where
  perm := h.perm.symm
  outside := fun i hi hout ↦ (h.outside i hi hout).symm
  inside := h.kept
  kept := h.inside

theorem trans (h : Rearranged b e xs ys) (h' : Rearranged b e ys zs) : Rearranged b e xs zs where
  perm := h'.perm.trans h.perm
  outside := fun i hi hout ↦ (h'.outside i hi hout).trans (h.outside i hi hout)
  inside := by
    intro i hi hb he
    obtain ⟨j, hj, hbj, hej, heq⟩ := h'.inside i hi hb he
    obtain ⟨k, hk, hbk, hek, heq'⟩ := h.inside j hj hbj hej
    exact ⟨k, hk, hbk, hek, heq.trans heq'⟩
  kept := by
    intro i hi hb he
    obtain ⟨j, hj, hbj, hej, heq⟩ := h.kept i hi hb he
    obtain ⟨k, hk, hbk, hek, heq'⟩ := h'.kept j hj hbj hej
    exact ⟨k, hk, hbk, hek, heq.trans heq'⟩

theorem mono (h : Rearranged b e xs ys) (hb : b' ≤ b) (he : e ≤ e') :
    Rearranged b' e' xs ys where
  perm := h.perm
  outside := by
    intro i hi hout
    apply h.outside i hi
    omega
  inside := by
    intro i hi hbi hei
    by_cases hin : b ≤ i ∧ i < e
    · obtain ⟨j, hj, hbj, hej, heq⟩ := h.inside i hi hin.1 hin.2
      exact ⟨j, hj, by omega, by omega, heq⟩
    · exact ⟨i, hi, hbi, hei, h.outside i hi (by omega)⟩
  kept := by
    intro i hi hbi hei
    by_cases hin : b ≤ i ∧ i < e
    · obtain ⟨j, hj, hbj, hej, heq⟩ := h.kept i hi hin.1 hin.2
      exact ⟨j, hj, by omega, by omega, heq⟩
    · exact ⟨i, hi, hbi, hei, (h.outside i hi (by omega)).symm⟩

theorem swap (xs : Vector α n) {i j : Nat} (hi : i < n) (hj : j < n) (hbi : b ≤ i) (hei : i < e)
    (hbj : b ≤ j) (hej : j < e) : Rearranged b e xs (xs.swap i j) where
  perm := Vector.swap_perm hi hj
  outside := by
    intro k hk hout
    apply Vector.getElem_swap_of_ne
    · omega
    · omega
  inside := by
    intro k hk hbk hek
    rw [Vector.getElem_swap]
    split
    · exact ⟨j, hj, hbj, hej, rfl⟩
    · split
      · exact ⟨i, hi, hbi, hei, rfl⟩
      · exact ⟨k, hk, hbk, hek, rfl⟩
  kept := by
    intro k hk hbk hek
    by_cases hki : k = i
    · exact ⟨j, hj, hbj, hej, by rw [Vector.getElem_swap_right]; simp only [hki]⟩
    · by_cases hkj : k = j
      · exact ⟨i, hi, hbi, hei, by rw [Vector.getElem_swap_left]; simp only [hkj]⟩
      · exact ⟨k, hk, hbk, hek, by rw [Vector.getElem_swap_of_ne hki hkj]⟩

theorem forall_inside (h : Rearranged b e xs ys) {P : α → Prop}
    (hP : ∀ i (hi : i < n), b ≤ i → i < e → P xs[i]) :
    ∀ i (hi : i < n), b ≤ i → i < e → P ys[i] := by
  intro i hi hb he
  obtain ⟨j, hj, hbj, hej, heq⟩ := h.inside i hi hb he
  rw [heq]
  exact hP j hj hbj hej

/-- The first entries of a vector whose first segment was rearranged are the same entries. -/
theorem take_perm {k : Nat} (h : Rearranged 0 k xs ys) :
    (ys.toList.take k).Perm (xs.toList.take k) := by
  have hdrop : ys.toList.drop k = xs.toList.drop k := by
    apply List.ext_getElem
    · simp
    · intro i hi hi'
      have hbound : k + i < n := by
        rw [List.length_drop, Vector.length_toList] at hi
        omega
      rw [List.getElem_drop, List.getElem_drop, Vector.getElem_toList, Vector.getElem_toList]
      exact h.outside (k + i) hbound (Or.inr (Nat.le_add_right k i))
  have hperm := h.perm.toList
  rw [← List.take_append_drop k ys.toList, ← List.take_append_drop k xs.toList, hdrop] at hperm
  exact (List.perm_append_right_iff _).mp hperm

end Rearranged

variable [LinearOrder α]

/-- The entries of a segment are in ascending order. -/
def SortedOn (b e : Nat) (xs : Vector α n) : Prop :=
  ∀ i j (hi : i < n) (hj : j < n), b ≤ i → i ≤ j → j < e → xs[i] ≤ xs[j]

theorem sortedOn_of_le {b e : Nat} (h : e ≤ b + 1) (xs : Vector α n) : SortedOn b e xs := by
  intro i j hi hj hb hij he
  have heq : i = j := by omega
  subst heq
  exact le_rfl

/-- Two sorted segments with a bound between them are a sorted segment. -/
theorem SortedOn.append {b m e : Nat} {xs : Vector α n} {bound : α} (hleft : SortedOn b m xs)
    (hright : SortedOn m e xs) (hle : ∀ i (hi : i < n), b ≤ i → i < m → xs[i] ≤ bound)
    (hge : ∀ i (hi : i < n), m ≤ i → i < e → bound ≤ xs[i]) : SortedOn b e xs := by
  intro i j hi hj hb hij he
  by_cases hjm : j < m
  · exact hleft i j hi hj hb hij hjm
  · by_cases him : i < m
    · exact (hle i hi hb him).trans (hge j hj (by omega) he)
    · exact hright i j hi hj (by omega) hij he

/-- A sorted segment stays sorted when its entries stay where they are. -/
theorem SortedOn.congr {b e : Nat} {xs ys : Vector α n} (h : SortedOn b e xs)
    (heq : ∀ i (hi : i < n), b ≤ i → i < e → ys[i] = xs[i]) : SortedOn b e ys := by
  intro i j hi hj hb hij he
  rw [heq i hi hb (by omega), heq j hj (by omega) he]
  exact h i j hi hj hb hij he

/-! ### Order statistics -/

/-- At most `o` entries are smaller than the one at position `o` of the sorted segment. -/
theorem SortedOn.countP_lt_le {k : Nat} {xs : Vector α n} (h : SortedOn 0 k xs) {o : Nat}
    (ho : o < n) : (xs.toList.take k).countP (· < xs[o]) ≤ o := by
  have hsplit : xs.toList.take k = (xs.toList.take k).take o ++ (xs.toList.take k).drop o :=
    (List.take_append_drop o _).symm
  have hnone : ((xs.toList.take k).drop o).countP (· < xs[o]) = 0 := by
    rw [List.countP_eq_zero]
    intro a ha
    obtain ⟨i, hi, rfl⟩ := List.mem_iff_getElem.mp ha
    rw [List.length_drop, List.length_take, Vector.length_toList] at hi
    rw [List.getElem_drop, List.getElem_take, Vector.getElem_toList, decide_eq_true_eq, not_lt]
    exact h o (o + i) ho (by omega) (Nat.zero_le o) (Nat.le_add_right o i) (by omega)
  have hfirst : ((xs.toList.take k).take o).countP (· < xs[o]) ≤
      ((xs.toList.take k).take o).length := List.countP_le_length
  rw [hsplit, List.countP_append, hnone]
  exact Nat.le_trans hfirst (List.length_take_le _ _)

/-- At least `o + 1` entries are not greater than that one. -/
theorem SortedOn.lt_countP_le {k : Nat} {xs : Vector α n} (h : SortedOn 0 k xs) {o : Nat}
    (hok : o < k) (ho : o < n) : o < (xs.toList.take k).countP (· ≤ xs[o]) := by
  have hsplit : xs.toList.take k =
      (xs.toList.take k).take (o + 1) ++ (xs.toList.take k).drop (o + 1) :=
    (List.take_append_drop (o + 1) _).symm
  have hall : ((xs.toList.take k).take (o + 1)).countP (· ≤ xs[o]) =
      ((xs.toList.take k).take (o + 1)).length := by
    rw [List.countP_eq_length]
    intro a ha
    obtain ⟨i, hi, rfl⟩ := List.mem_iff_getElem.mp ha
    rw [List.length_take, List.length_take, Vector.length_toList] at hi
    rw [List.getElem_take, List.getElem_take, Vector.getElem_toList, decide_eq_true_eq]
    exact h i o (by omega) ho (Nat.zero_le i) (by omega) hok
  rw [hsplit, List.countP_append, hall, List.length_take, List.length_take, Vector.length_toList]
  omega

end MonitoringRobot.Base
