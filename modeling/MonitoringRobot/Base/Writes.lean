import Mathlib.Data.List.FinRange
import Mathlib.Data.List.Induction

/-!
# Writes into a vector

A loop that stores values at computed positions: a position may be written more than once, or
not at all.
-/

namespace MonitoringRobot.Base

universe u

variable {α : Type u} {n : Nat}

@[simp] theorem get_mk (xs : Vector α n) {i : Nat} (hi : i < n) : xs.get ⟨i, hi⟩ = xs[i] := rfl

@[simp] theorem get_ofFn (f : Fin n → α) (i : Fin n) : (Vector.ofFn f).get i = f i :=
  Vector.getElem_ofFn i.isLt

/-- Values are stored one after the other. -/
def writeAll (writes : List (Fin n × α)) (xs : Vector α n) : Vector α n :=
  writes.foldl (fun xs w ↦ xs.set w.1 w.2) xs

theorem writeAll_append (ws ws' : List (Fin n × α)) (xs : Vector α n) :
    writeAll (ws ++ ws') xs = writeAll ws' (writeAll ws xs) :=
  List.foldl_append

theorem getElem_writeAll (writes : List (Fin n × α)) (xs : Vector α n) (k : Fin n) :
    (writeAll writes xs).get k =
      (((writes.filter (·.1 = k)).getLast?).map Prod.snd).getD (xs.get k) := by
  induction writes using List.reverseRecOn with
  | nil => rfl
  | append_singleton writes w ih =>
    rw [writeAll_append, List.filter_append, List.getLast?_append]
    by_cases h : w.1 = k
    · subst h
      have hstored : (writeAll [w] (writeAll writes xs)).get w.1 = w.2 :=
        Vector.getElem_set_self w.1.isLt
      rw [hstored]
      simp
    · have hne : w.1.val ≠ k := fun heq ↦ h (Fin.ext heq)
      have hkept : (writeAll [w] (writeAll writes xs)).get k = (writeAll writes xs).get k :=
        Vector.getElem_set_ne w.1.isLt k.isLt hne
      rw [hkept, ih, List.filter_singleton, decide_eq_false h]
      rfl

theorem getElem_writeAll_of_ne {writes : List (Fin n × α)} (xs : Vector α n) {k : Fin n}
    (h : ∀ w ∈ writes, w.1 ≠ k) : (writeAll writes xs).get k = xs.get k := by
  have hnone : writes.filter (·.1 = k) = [] := by
    apply List.filter_eq_nil_iff.mpr
    intro w hw
    simpa using h w hw
  rw [getElem_writeAll, hnone]
  rfl

/-- Values that go to different positions are all there afterwards. -/
theorem getElem_writeAll_of_injective {f : Fin n → Fin n} (hf : Function.Injective f)
    (v : Fin n → α) (xs : Vector α n) (i : Fin n) :
    (writeAll ((List.finRange n).map fun i ↦ (f i, v i)) xs).get (f i) = v i := by
  have hone : (List.finRange n).filter ((·.1 = f i) ∘ fun i ↦ (f i, v i)) = [i] := by
    rw [← List.replicate_one, ← List.count_finRange i, ← List.filter_eq]
    apply List.filter_congr
    intro j _
    simp [hf.eq_iff]
  rw [getElem_writeAll, List.filter_map, hone]
  rfl

theorem getElem_writeAll_map {positions : List (Fin n)} (a : α) (xs : Vector α n) {k : Fin n}
    (h : k ∈ positions) : (writeAll (positions.map (·, a)) xs).get k = a := by
  have hmem : (k, a) ∈ (positions.map (·, a)).filter (·.1 = k) := by simp [h]
  have hlast := List.getLast_mem (List.ne_nil_of_mem hmem)
  obtain ⟨_, _, heq⟩ := List.mem_map.mp (List.mem_filter.mp hlast).1
  rw [getElem_writeAll, List.getLast?_eq_some_getLast (List.ne_nil_of_mem hmem), ← heq]
  rfl

/-- Each item goes to some positions: a position holds the last item that went there. -/
theorem getElem_writeAll_flatMap (positions : α → List (Fin n)) (items : List α) (xs : Vector α n)
    (k : Fin n) :
    (writeAll (items.flatMap fun a ↦ (positions a).map (·, a)) xs).get k =
      ((items.filter (k ∈ positions ·)).getLast?).getD (xs.get k) := by
  induction items using List.reverseRecOn with
  | nil => rfl
  | append_singleton items a ih =>
    rw [List.flatMap_append, List.flatMap_singleton, writeAll_append, List.filter_append,
      List.getLast?_append, List.filter_singleton]
    by_cases h : k ∈ positions a
    · rw [getElem_writeAll_map a _ h, decide_eq_true h]
      rfl
    · rw [getElem_writeAll_of_ne, ih, decide_eq_false h]
      · rfl
      · intro w hw heq
        obtain ⟨i, hi, rfl⟩ := List.mem_map.mp hw
        exact h (heq ▸ hi)

end MonitoringRobot.Base
