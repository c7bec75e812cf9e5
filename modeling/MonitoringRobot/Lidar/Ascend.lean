import Mathlib.Data.List.Sort
import MonitoringRobot.Base.Rounding
import MonitoringRobot.Base.Segments
import MonitoringRobot.Lidar.Nodes

/-!
# Ordering a scan by angle

`ascendScanData_` (`edge_packages/src/rplidar_ros/sdk/src/sl_lidar_driver.cpp:102-184`) gives the
nodes without a reading an angle and sorts the scan. Three passes write over each other: from the
first reading down, from the last one up, and over all nodes without a reading but the first
node. Angles are computed as `float`, and are cut to sixteen bits each time they are stored. A
number that does not fit the type it is converted to is undefined behaviour: there is no result.
-/

namespace MonitoringRobot.Lidar
open MonitoringRobot.Base

/-! ### Angles -/

/-- `sl_u32(v)`. -/
def toU32 (v : ℚ) : Option Nat := if -1 < v ∧ v < 2 ^ 32 then some ⌊v⌋₊ else none

/-- The degrees of an angle in a node. -/
def degrees (angleZQ14 : Nat) : ℚ := f32 (f32 (angleZQ14 * 90) / 16384)

namespace HqNode

/-- `getAngle`. -/
def getAngle (node : HqNode) : ℚ := degrees node.angleZQ14

/-- `setAngle`. -/
def setAngle (node : HqNode) (v : ℚ) : Option HqNode :=
  (toU32 (f32 (f32 (v * 16384) / 90))).map fun angle ↦
    { node with angleZQ14 := angle % 2 ^ 16 }

/-- There is a reading. -/
abbrev IsValid (node : HqNode) : Prop := node.distMmQ2 ≠ 0

end HqNode

/-- `SL_RESULT_OK` and `SL_RESULT_OPERATION_FAIL`. -/
inductive SlResult where
  | ok
  | operationFail
deriving DecidableEq, Repr

variable {n : Nat}

/-- Angles below zero become zero. -/
def notNegative (v : ℚ) : ℚ := if v < 0 then 0 else v

/-- More than a turn is a turn less. -/
def lessTurn (v : ℚ) : ℚ := if 360 < v then f32 (v - 360) else v

/-! ### The passes -/

/-- The first node with a reading. -/
def firstValid (nodes : Vector HqNode n) : Option (Fin n) :=
  (List.finRange n).find? fun i ↦ (nodes.get i).IsValid

/-- The last one. -/
def lastValid (nodes : Vector HqNode n) : Option (Fin n) :=
  (List.finRange n).reverse.find? fun i ↦ (nodes.get i).IsValid

/-- "Tune head", from the entry below `i` down. -/
def tuneHead (inc : ℚ) : (i : Nat) → (nodes : Vector HqNode n) → i < n → Option (Vector HqNode n)
  | 0, nodes, _ => some nodes
  | i + 1, nodes, h =>
    (nodes[i].setAngle (notNegative (f32 (nodes[i + 1].getAngle - inc)))).bind fun node ↦
      tuneHead inc i (nodes.set i node) (by omega)

/-- "Tune tail", from the entry above `i` up; `left` entries are above it. -/
def tuneTail (inc : ℚ) :
    (left i : Nat) → (nodes : Vector HqNode n) → i + left < n → Option (Vector HqNode n)
  | 0, _, nodes, _ => some nodes
  | left + 1, i, nodes, h =>
    (nodes[i + 1].setAngle (lessTurn (f32 (nodes[i].getAngle + inc)))).bind fun node ↦
      tuneTail inc left (i + 1) (nodes.set (i + 1) node) (by omega)

/-- "Fill invalid angle in the scan", for `left` entries from `i` on. -/
def fillInvalid (inc frontAngle : ℚ) :
    (left i : Nat) → (nodes : Vector HqNode n) → left + i ≤ n → Option (Vector HqNode n)
  | 0, _, nodes, _ => some nodes
  | left + 1, i, nodes, h =>
    if nodes[i].IsValid then fillInvalid inc frontAngle left (i + 1) nodes (by omega)
    else
      (nodes[i].setAngle (lessTurn (f32 (frontAngle + f32 (f32 i * inc))))).bind fun node ↦
        fillInvalid inc frontAngle left (i + 1) (nodes.set i node) (by omega)

/-- `inc_origin_angle`; infinite for no nodes, when it is not used. -/
def incOriginAngle (n : Nat) : ℚ := f32 (360 / f32 n)

/-- "Tune tail". -/
def tuneTailPass (nodes : Vector HqNode n) : Option (Vector HqNode n) :=
  match lastValid nodes with
  | none => some nodes
  | some last => tuneTail (incOriginAngle n) (n - 1 - last) last nodes (by omega)

/-- `ascendScanData_`. The order of nodes with the same angle is up to `std::sort`. -/
def ascendScanData (sort : Vector HqNode n → Vector HqNode n) (nodes : Vector HqNode n) :
    Option (SlResult × Vector HqNode n) :=
  match firstValid nodes with
  | none => some (.operationFail, nodes)
  | some first => do
    have hpos : 0 < n := first.pos
    let head ← tuneHead (incOriginAngle n) first nodes first.isLt
    let tail ← tuneTailPass head
    let filled ← fillInvalid (incOriginAngle n) tail[0].getAngle (n - 1) 1 tail (by omega)
    some (.ok, sort filled)

/-! ### Conversions -/

/-- What is stored of an angle. -/
def angleQ14 (v : ℚ) : Nat := ⌊f32 (f32 (v * 16384) / 90)⌋₊ % 2 ^ 16

/-- Nothing is rounded past a bound that is a `float` itself. -/
theorem f32_le {q y : ℚ} (hexact : f32 y = y) (h : q ≤ y) : f32 q ≤ y :=
  roundTo_le (by decide) hexact h

/-- An angle of at most a turn fits; a whole turn is stored as zero. -/
theorem HqNode.setAngle_eq (node : HqNode) {v : ℚ} (hv : 0 ≤ v) (hturn : v ≤ 360) :
    node.setAngle v = some { node with angleZQ14 := angleQ14 v } := by
  have hscaled : f32 (v * 16384) ≤ 5898240 :=
    f32_le (by decide +kernel) (by linarith)
  have hangle : f32 (f32 (v * 16384) / 90) ≤ 65536 :=
    f32_le (by decide +kernel) (by linarith)
  have hpos : 0 ≤ f32 (f32 (v * 16384) / 90) := by
    apply roundTo_nonneg
    exact div_nonneg (roundTo_nonneg (by linarith)) (by norm_num)
  have hfits : -1 < f32 (f32 (v * 16384) / 90) ∧ f32 (f32 (v * 16384) / 90) < 2 ^ 32 := by
    constructor <;> linarith
  simp only [HqNode.setAngle, toU32, if_pos hfits, Option.map_some, angleQ14]

theorem degrees_nonneg (angleZQ14 : Nat) : 0 ≤ degrees angleZQ14 := by
  apply roundTo_nonneg
  apply div_nonneg _ (by norm_num)
  apply roundTo_nonneg
  positivity

theorem degrees_le {angleZQ14 : Nat} (h : angleZQ14 < 2 ^ 16) : degrees angleZQ14 ≤ 360 := by
  have hz : (angleZQ14 : ℚ) ≤ 65536 := by exact_mod_cast h.le
  have hscaled : f32 (angleZQ14 * 90) ≤ 5898240 :=
    f32_le (by decide +kernel) (by linarith)
  exact f32_le (by decide +kernel) (by linarith)

theorem notNegative_mem {v : ℚ} (h : v ≤ 360) : 0 ≤ notNegative v ∧ notNegative v ≤ 360 := by
  unfold notNegative
  split
  · constructor <;> norm_num
  · constructor <;> linarith

theorem lessTurn_mem {v : ℚ} (hv : 0 ≤ v) (h : v ≤ 720) : 0 ≤ lessTurn v ∧ lessTurn v ≤ 360 := by
  unfold lessTurn
  split
  · exact ⟨roundTo_nonneg (by linarith), f32_le (by decide +kernel) (by linarith)⟩
  · constructor <;> linarith

theorem angleQ14_lt (v : ℚ) : angleQ14 v < 2 ^ 16 := Nat.mod_lt _ (by norm_num)

theorem incOriginAngle_nonneg (n : Nat) : 0 ≤ incOriginAngle n := by
  apply roundTo_nonneg
  apply div_nonneg (by norm_num)
  apply roundTo_nonneg
  positivity

theorem f32_natCast {i : Nat} (h : i ≤ 2 ^ 24) : f32 i = i := by
  rcases h.eq_or_lt with rfl | hlt
  · exact_mod_cast (by decide +kernel : f32 16777216 = 16777216)
  · exact roundTo_natCast hlt

/-- All steps of a scan together are not more than a turn, in spite of the rounding. -/
theorem mul_incOriginAngle_le {i : Nat} (hi : i < n) (hn : n ≤ 2 ^ 24) :
    f32 i * incOriginAngle n ≤ 360 := by
  rw [f32_natCast (by omega)]
  have hpos : (0 : ℚ) < n := by exact_mod_cast Nat.zero_lt_of_lt hi
  have hin : (i : ℚ) + 1 ≤ n := by exact_mod_cast hi
  have hbound : (n : ℚ) ≤ 2 ^ 24 := by exact_mod_cast hn
  have hinc : incOriginAngle n ≤ 360 / n * (1 + 1 / 2 ^ 24) := by
    rw [incOriginAngle, f32_natCast hn]
    exact roundTo_le_mul (by positivity)
  have hsteps : (i : ℚ) * (1 + 1 / 2 ^ 24) ≤ n := by linarith
  calc (i : ℚ) * incOriginAngle n ≤ i * (360 / n * (1 + 1 / 2 ^ 24)) := by gcongr
    _ = 360 * (i * (1 + 1 / 2 ^ 24)) / n := by ring
    _ ≤ 360 * n / n := by gcongr
    _ = 360 := by field_simp

/-! ### What the passes leave -/

/-- All angles have sixteen bits. -/
def AnglesFit (nodes : Vector HqNode n) : Prop := ∀ i (h : i < n), nodes[i].angleZQ14 < 2 ^ 16

instance (nodes : Vector HqNode n) : Decidable (AnglesFit nodes) :=
  inferInstanceAs (Decidable (∀ i (h : i < n), nodes[i].angleZQ14 < 2 ^ 16))

/-- The nodes differ in their angles only. -/
def SameReadings (nodes tuned : Vector HqNode n) : Prop :=
  ∀ i (h : i < n), tuned[i] = { nodes[i] with angleZQ14 := tuned[i].angleZQ14 }

/-- One step of the first pass: the angle of the node before one at the given angle. -/
def stepBack (inc : ℚ) (angleZQ14 : Nat) : Nat :=
  angleQ14 (notNegative (f32 (degrees angleZQ14 - inc)))

theorem SameReadings.set {nodes : Vector HqNode n} {i angleZQ14 : Nat} (hi : i < n) :
    SameReadings nodes (nodes.set i { nodes[i] with angleZQ14 := angleZQ14 }) := by
  intro j hj
  by_cases heq : i = j
  · subst heq
    rw [Vector.getElem_set_self]
  · rw [Vector.getElem_set_ne _ _ heq]

theorem SameReadings.trans {xs ys zs : Vector HqNode n} (h : SameReadings xs ys)
    (h' : SameReadings ys zs) : SameReadings xs zs := by
  intro i hi
  rw [h' i hi, h i hi]

theorem AnglesFit.set {nodes : Vector HqNode n} (h : AnglesFit nodes) {i : Nat} (hi : i < n)
    (v : ℚ) : AnglesFit (nodes.set i { nodes[i] with angleZQ14 := angleQ14 v }) := by
  intro j hj
  by_cases heq : i = j
  · subst heq
    rw [Vector.getElem_set_self]
    exact angleQ14_lt v
  · rw [Vector.getElem_set_ne _ _ heq]
    exact h j hj

/-- The first pass changes the angles below a node, down to the first one. -/
theorem tuneHead_spec {inc : ℚ} (hinc : 0 ≤ inc) {i : Nat} (nodes : Vector HqNode n) (hi : i < n)
    (hfit : AnglesFit nodes) :
    ∃ tuned, tuneHead inc i nodes hi = some tuned ∧ AnglesFit tuned ∧ SameReadings nodes tuned ∧
      (∀ j (hj : j < n), i ≤ j → tuned[j] = nodes[j]) ∧
      tuned[0].angleZQ14 = (stepBack inc)^[i] nodes[i].angleZQ14 := by
  induction i generalizing nodes with
  | zero => exact ⟨nodes, rfl, hfit, fun _ _ ↦ rfl, fun _ _ _ ↦ rfl, rfl⟩
  | succ i ih =>
    have hangle := notNegative_mem (v := f32 (nodes[i + 1].getAngle - inc))
      (f32_le (by decide +kernel) (by
        have hle := degrees_le (hfit (i + 1) hi)
        have heq : nodes[i + 1].getAngle = degrees nodes[i + 1].angleZQ14 := rfl
        linarith))
    rw [tuneHead, HqNode.setAngle_eq _ hangle.1 hangle.2, Option.bind_some]
    obtain ⟨tuned, heq, hfit', hsame, hkept, hfront⟩ := ih _ (by omega)
      (hfit.set (i := i) (by omega) (notNegative (f32 (nodes[i + 1].getAngle - inc))))
    refine ⟨tuned, heq, hfit', (SameReadings.set (by omega)).trans hsame, ?_, ?_⟩
    · intro j hj hij
      rw [hkept j hj (by omega), Vector.getElem_set_ne _ _ (by omega)]
    · rw [hfront, Vector.getElem_set_self, Function.iterate_succ_apply]
      rfl

theorem tuneTail_spec {inc : ℚ} (hinc : 0 ≤ inc) (hturn : inc ≤ 360) {left i : Nat}
    (nodes : Vector HqNode n) (hi : i + left < n) (hfit : AnglesFit nodes) :
    ∃ tuned, tuneTail inc left i nodes hi = some tuned ∧ SameReadings nodes tuned ∧
      ∀ j (hj : j < n), j ≤ i → tuned[j] = nodes[j] := by
  induction left generalizing i nodes with
  | zero => exact ⟨nodes, rfl, fun _ _ ↦ rfl, fun _ _ _ ↦ rfl⟩
  | succ left ih =>
    have hnonneg : 0 ≤ nodes[i].getAngle := degrees_nonneg _
    have hle : nodes[i].getAngle ≤ 360 := degrees_le (hfit i (by omega))
    have hangle := lessTurn_mem (v := f32 (nodes[i].getAngle + inc))
      (roundTo_nonneg (by linarith)) (f32_le (by decide +kernel) (by linarith))
    rw [tuneTail, HqNode.setAngle_eq _ hangle.1 hangle.2, Option.bind_some]
    obtain ⟨tuned, heq, hsame, hkept⟩ := ih _ (i := i + 1) (by omega)
      (hfit.set (i := i + 1) (by omega) (lessTurn (f32 (nodes[i].getAngle + inc))))
    refine ⟨tuned, heq, (SameReadings.set (by omega)).trans hsame, ?_⟩
    intro j hj hji
    rw [hkept j hj (by omega), Vector.getElem_set_ne _ _ (by omega)]

/-- What the last pass stores at a position. -/
def filledQ14 (n : Nat) (frontAngle : ℚ) (i : Nat) : Nat :=
  angleQ14 (lessTurn (f32 (frontAngle + f32 (f32 i * incOriginAngle n))))

/-- The last pass changes the nodes without a reading from a position on. -/
theorem fillInvalid_spec (hn : n ≤ 2 ^ 24) {frontAngle : ℚ} (hfront : 0 ≤ frontAngle)
    (hturn : frontAngle ≤ 360) {left i : Nat} (nodes : Vector HqNode n) (hi : left + i ≤ n) :
    ∃ filled, fillInvalid (incOriginAngle n) frontAngle left i nodes hi = some filled ∧
      ∀ j (hj : j < n), filled[j] =
        if (i ≤ j ∧ j < i + left) ∧ ¬ nodes[j].IsValid then
          { nodes[j] with angleZQ14 := filledQ14 n frontAngle j }
        else nodes[j] := by
  induction left generalizing i nodes with
  | zero =>
    refine ⟨nodes, rfl, ?_⟩
    intro j hj
    rw [if_neg (by omega)]
  | succ left ih =>
    rw [fillInvalid]
    split
    · next hvalid =>
      obtain ⟨filled, heq, hfilled⟩ := ih nodes (i := i + 1) (by omega)
      refine ⟨filled, heq, ?_⟩
      intro j hj
      rw [hfilled j hj]
      by_cases hji : j = i
      · subst hji
        rw [if_neg (by omega), if_neg (fun h ↦ h.2 hvalid)]
      · have hiff : (i + 1 ≤ j ∧ j < i + 1 + left) ↔ (i ≤ j ∧ j < i + (left + 1)) := by omega
        simp only [hiff]
    · next hinvalid =>
      have hsteps : f32 (f32 i * incOriginAngle n) ≤ 360 :=
        f32_le (by decide +kernel) (mul_incOriginAngle_le (by omega) hn)
      have hsteps0 : 0 ≤ f32 (f32 i * incOriginAngle n) :=
        roundTo_nonneg (mul_nonneg (roundTo_nonneg (Nat.cast_nonneg i)) (incOriginAngle_nonneg n))
      have hangle := lessTurn_mem (v := f32 (frontAngle + f32 (f32 i * incOriginAngle n)))
        (roundTo_nonneg (by linarith)) (f32_le (by decide +kernel) (by linarith))
      rw [HqNode.setAngle_eq _ hangle.1 hangle.2, Option.bind_some]
      obtain ⟨filled, heq, hfilled⟩ := ih _ (i := i + 1) (by omega)
      refine ⟨filled, heq, ?_⟩
      intro j hj
      rw [hfilled j hj]
      by_cases hji : j = i
      · subst hji
        rw [if_neg (by omega), if_pos ⟨by omega, hinvalid⟩, Vector.getElem_set_self]
        rfl
      · have hiff : (i + 1 ≤ j ∧ j < i + 1 + left) ↔ (i ≤ j ∧ j < i + (left + 1)) := by omega
        simp only [hiff, Vector.getElem_set_ne _ _ (Ne.symm hji)]

/-! ### The scan -/

/-- The angle the first node ends with, from that of the first node with a reading. -/
def frontQ14 (nodes : Vector HqNode n) (first : Fin n) : Nat :=
  (stepBack (incOriginAngle n))^[first] (nodes.get first).angleZQ14

/-- What becomes of each node before the scan is sorted: one with a reading stays as it is, and
the others get angles at equal distances from the first node. -/
def withAngles (nodes : Vector HqNode n) (first : Fin n) : Vector HqNode n :=
  .ofFn fun i ↦
    if (nodes.get i).IsValid then nodes.get i
    else
      { nodes.get i with
        angleZQ14 :=
          if i.val = 0 then frontQ14 nodes first
          else filledQ14 n (degrees (frontQ14 nodes first)) i }

theorem getElem_withAngles (nodes : Vector HqNode n) (first : Fin n) {i : Nat} (hi : i < n) :
    (withAngles nodes first)[i] =
      if nodes[i].IsValid then nodes[i]
      else
        { nodes[i] with
          angleZQ14 :=
            if i = 0 then frontQ14 nodes first
            else filledQ14 n (degrees (frontQ14 nodes first)) i } := by
  rw [withAngles, Vector.getElem_ofFn]
  rfl

/-- What is found in an ordered list comes before whatever else could be. -/
theorem eq_or_of_find {α : Type} {r : α → α → Prop} {p : α → Bool} {l : List α} {a b : α}
    (hl : l.Pairwise r) (h : l.find? p = some a) (hb : b ∈ l) (hp : p b) : b = a ∨ r a b := by
  obtain ⟨_, xs, ys, rfl, hxs⟩ := List.find?_eq_some_iff_append.mp h
  rcases List.mem_append.mp hb with hleft | hright
  · have hnot := hxs b hleft
    rw [hp] at hnot
    cases hnot
  · rcases List.mem_cons.mp hright with rfl | hmem
    · exact Or.inl rfl
    · exact Or.inr ((List.pairwise_cons.mp (List.pairwise_append.mp hl).2.1).1 b hmem)

theorem firstValid_eq_some {nodes : Vector HqNode n} {first : Fin n}
    (h : firstValid nodes = some first) :
    (nodes.get first).IsValid ∧ ∀ i (hi : i < n), nodes[i].IsValid → first ≤ i := by
  refine ⟨by simpa using List.find?_some h, ?_⟩
  intro i hi hvalid
  rcases eq_or_of_find (List.pairwise_lt_finRange n) h (List.mem_finRange ⟨i, hi⟩)
    (decide_eq_true hvalid) with heq | hlt
  · exact (congrArg Fin.val heq).ge
  · exact le_of_lt hlt

theorem lastValid_eq_some {nodes : Vector HqNode n} {last : Fin n}
    (h : lastValid nodes = some last) :
    (nodes.get last).IsValid ∧ ∀ i (hi : i < n), nodes[i].IsValid → i ≤ last := by
  refine ⟨by simpa using List.find?_some h, ?_⟩
  intro i hi hvalid
  have hsorted := List.pairwise_reverse.mpr (List.pairwise_lt_finRange n)
  rcases eq_or_of_find hsorted h (List.mem_reverse.mpr (List.mem_finRange ⟨i, hi⟩))
    (decide_eq_true hvalid) with heq | hlt
  · exact (congrArg Fin.val heq).le
  · exact le_of_lt hlt

theorem SameReadings.isValid_iff {nodes tuned : Vector HqNode n} (h : SameReadings nodes tuned)
    {i : Nat} (hi : i < n) : tuned[i].IsValid ↔ nodes[i].IsValid := by
  rw [h i hi]

theorem incOriginAngle_le (hpos : 0 < n) (hn : n ≤ 2 ^ 24) : incOriginAngle n ≤ 360 := by
  rw [incOriginAngle, f32_natCast hn]
  apply f32_le (by decide +kernel)
  have hone : (1 : ℚ) ≤ n := by exact_mod_cast hpos
  exact div_le_self (by norm_num) hone

/-- The second pass leaves the nodes with a reading alone, and the first node. -/
theorem tuneTailPass_spec (hpos : 0 < n) (hn : n ≤ 2 ^ 24) {nodes : Vector HqNode n}
    (hfit : AnglesFit nodes) :
    ∃ tuned, tuneTailPass nodes = some tuned ∧ SameReadings nodes tuned ∧
      tuned[0] = nodes[0] ∧ ∀ i (hi : i < n), nodes[i].IsValid → tuned[i] = nodes[i] := by
  cases hlast : lastValid nodes with
  | none =>
    refine ⟨nodes, ?_, fun _ _ ↦ rfl, rfl, fun _ _ _ ↦ rfl⟩
    simp only [tuneTailPass, hlast]
  | some last =>
    have hbound := last.isLt
    obtain ⟨tuned, heq, hsame, hkept⟩ := tuneTail_spec (incOriginAngle_nonneg n)
      (incOriginAngle_le hpos hn) nodes (by omega : last.val + (n - 1 - last) < n) hfit
    refine ⟨tuned, ?_, hsame, hkept 0 hpos (Nat.zero_le _), ?_⟩
    · simp only [tuneTailPass, hlast, heq]
    · intro i hi hvalid
      exact hkept i hi ((lastValid_eq_some hlast).2 i hi hvalid)

/-- No number is out of the range of its type, and of the second pass nothing is left: the third
one writes over all it wrote. -/
theorem ascendScanData_eq (sort : Vector HqNode n → Vector HqNode n) (hn : n ≤ 2 ^ 24)
    {nodes : Vector HqNode n} (hfit : AnglesFit nodes) {first : Fin n}
    (hfirst : firstValid nodes = some first) :
    ascendScanData sort nodes = some (.ok, sort (withAngles nodes first)) := by
  have hpos : 0 < n := first.pos
  obtain ⟨hvalid, hbefore⟩ := firstValid_eq_some hfirst
  obtain ⟨head, hhead, hheadFit, hheadSame, hheadKept, hfront⟩ :=
    tuneHead_spec (incOriginAngle_nonneg n) nodes first.isLt hfit
  obtain ⟨tail, htail, htailSame, hzero, htailKept⟩ := tuneTailPass_spec hpos hn hheadFit
  have hangle : tail[0].angleZQ14 = frontQ14 nodes first := by rw [hzero, hfront, frontQ14]; rfl
  have hfrontNonneg : 0 ≤ tail[0].getAngle := degrees_nonneg _
  have hfrontLe : tail[0].getAngle ≤ 360 := by
    rw [hzero]
    exact degrees_le (hheadFit 0 hpos)
  obtain ⟨filled, hfill, hfilled⟩ := fillInvalid_spec hn hfrontNonneg hfrontLe tail
    (by omega : n - 1 + 1 ≤ n)
  have hsame : SameReadings nodes tail := hheadSame.trans htailSame
  have hresult : filled = withAngles nodes first := by
    ext1 i hi
    rw [hfilled i hi, getElem_withAngles]
    by_cases hreading : nodes[i].IsValid
    · rw [if_pos hreading, if_neg (fun h ↦ h.2 ((hsame.isValid_iff hi).mpr hreading)),
        htailKept i hi ((hheadSame.isValid_iff hi).mpr hreading),
        hheadKept i hi (hbefore i hi hreading)]
    · have hnot : ¬ tail[i].IsValid := fun h ↦ hreading ((hsame.isValid_iff hi).mp h)
      rw [if_neg hreading, hsame i hi]
      by_cases hi0 : i = 0
      · subst hi0
        rw [if_neg (by omega), if_pos rfl, hangle]
      · have hin : 1 ≤ i ∧ i < 1 + (n - 1) := by omega
        rw [← hsame i hi, if_pos ⟨hin, hnot⟩, if_neg hi0, hsame i hi, HqNode.getAngle, hangle]
  simp only [ascendScanData, hfirst, hhead, htail, hfill, hresult, Option.bind_eq_bind,
    Option.bind_some]

/-- What `std::sort` does with `angleLessThan`. -/
structure SortsByAngle (sort : Vector HqNode n → Vector HqNode n) : Prop where
  perm : ∀ nodes, (sort nodes).Perm nodes
  sorted : ∀ nodes, SortedOn 0 n ((sort nodes).map HqNode.getAngle)

/-- The readings of the scan, with their angles. -/
def readings (nodes : Vector HqNode n) : List HqNode :=
  nodes.toList.filter fun node ↦ node.IsValid

/-- The lists of what has the property are the same if the entries without it are in the same
places. -/
theorem filter_eq_of_getElem {α : Type} {p : α → Bool} {xs ys : List α}
    (hlength : xs.length = ys.length)
    (h : ∀ i (hx : i < xs.length) (hy : i < ys.length),
      p xs[i] = p ys[i] ∧ (p xs[i] → xs[i] = ys[i])) :
    xs.filter p = ys.filter p := by
  have hall : List.Forall₂ (fun x y ↦ p x = p y ∧ (p x → x = y)) xs ys :=
    List.forall₂_iff_get.mpr ⟨hlength, fun i hx hy ↦ h i hx hy⟩
  clear h hlength
  induction hall with
  | nil => rfl
  | @cons x y xs ys hxy _ ih =>
    rw [List.filter_cons, List.filter_cons, ih, ← hxy.1]
    split
    · next hp => rw [hxy.2 hp]
    · rfl

/-- The nodes with a reading are not touched before the sorting. -/
theorem readings_withAngles (nodes : Vector HqNode n) (first : Fin n) :
    readings (withAngles nodes first) = readings nodes := by
  apply filter_eq_of_getElem
  · simp
  · intro i hx hy
    rw [Vector.length_toList] at hx
    rw [Vector.getElem_toList, Vector.getElem_toList, getElem_withAngles nodes first hx]
    split
    · exact ⟨rfl, fun _ ↦ rfl⟩
    · next hinvalid => exact ⟨rfl, fun hvalid ↦ absurd (of_decide_eq_true hvalid) hinvalid⟩

theorem firstValid_eq_none {nodes : Vector HqNode n} :
    firstValid nodes = none ↔ readings nodes = [] := by
  rw [firstValid, List.find?_eq_none, readings, List.filter_eq_nil_iff]
  constructor
  · intro h node hmem
    obtain ⟨i, hi, rfl⟩ := List.mem_iff_getElem.mp hmem
    rw [Vector.length_toList] at hi
    exact h ⟨i, hi⟩ (List.mem_finRange _)
  · intro h i _
    exact h nodes[i] (Vector.mem_toList_iff.mpr (Vector.getElem_mem i.isLt))

/-- For every scan and every order among nodes of the same angle, no number is out of range. A scan
without a reading is refused as it was; any other one comes out in ascending order of the angles,
with the readings it had at the angles they had, and the others at equal distances from the first
node. -/
theorem ascended {sort : Vector HqNode n → Vector HqNode n} (hsort : SortsByAngle sort)
    (hn : n ≤ 2 ^ 24) {nodes : Vector HqNode n} (hfit : AnglesFit nodes) :
    (readings nodes = [] ∧ ascendScanData sort nodes = some (.operationFail, nodes)) ∨
    ∃ first ascending, firstValid nodes = some first ∧
      ascendScanData sort nodes = some (.ok, ascending) ∧
      SortedOn 0 n (ascending.map HqNode.getAngle) ∧
      (readings ascending).Perm (readings nodes) ∧
      ascending.Perm (withAngles nodes first) := by
  cases hfirst : firstValid nodes with
  | none =>
    left
    constructor
    · exact firstValid_eq_none.mp hfirst
    · simp only [ascendScanData, hfirst]
  | some first =>
    right
    have hperm : (sort (withAngles nodes first)).Perm (withAngles nodes first) :=
      hsort.perm (withAngles nodes first)
    refine ⟨first, sort (withAngles nodes first), rfl, ascendScanData_eq sort hn hfit hfirst,
      hsort.sorted _, ?_, hperm⟩
    rw [← readings_withAngles nodes first]
    exact hperm.toList.filter _

/-- A stable sort. -/
def sortByAngle (nodes : Vector HqNode n) : Vector HqNode n :=
  ⟨⟨nodes.toList.insertionSort fun a b ↦ a.getAngle ≤ b.getAngle⟩, by simp⟩

theorem sortsByAngle_sortByAngle : SortsByAngle (sortByAngle (n := n)) where
  perm := by
    intro nodes
    apply Vector.perm_iff_toList_perm.mpr
    exact List.perm_insertionSort (fun a b ↦ a.getAngle ≤ b.getAngle) nodes.toList
  sorted := by
    intro nodes i j hi hj _ hij _
    have htotal : Std.Total fun a b : HqNode ↦ a.getAngle ≤ b.getAngle := ⟨fun _ _ ↦ le_total _ _⟩
    have htrans : IsTrans HqNode fun a b ↦ a.getAngle ≤ b.getAngle := ⟨fun _ _ _ ↦ le_trans⟩
    have hsorted := List.pairwise_insertionSort (fun a b : HqNode ↦ a.getAngle ≤ b.getAngle)
      nodes.toList
    rw [Vector.getElem_map, Vector.getElem_map]
    rcases hij.eq_or_lt with rfl | hlt
    · exact le_rfl
    · exact List.pairwise_iff_getElem.mp hsorted i j (by simpa using hi) (by simpa using hj) hlt

/-- Readings at a quarter of a turn and near its end; the nodes around them get angles. -/
def twoReadings : Vector HqNode 5 :=
  #v[{ angleZQ14 := 7, distMmQ2 := 0, quality := 0, flag := 1 },
    { angleZQ14 := 16384, distMmQ2 := 4000, quality := 188, flag := 2 },
    { angleZQ14 := 5, distMmQ2 := 0, quality := 0, flag := 2 },
    { angleZQ14 := 60000, distMmQ2 := 4004, quality := 188, flag := 2 },
    { angleZQ14 := 0, distMmQ2 := 0, quality := 0, flag := 2 }]

theorem ascended_twoReadings :
    ascendScanData sortByAngle twoReadings = some (.ok,
      #v[{ angleZQ14 := 3276, distMmQ2 := 0, quality := 0, flag := 1 },
        { angleZQ14 := 16384, distMmQ2 := 4000, quality := 188, flag := 2 },
        { angleZQ14 := 29490, distMmQ2 := 0, quality := 0, flag := 2 },
        { angleZQ14 := 55704, distMmQ2 := 0, quality := 0, flag := 2 },
        { angleZQ14 := 60000, distMmQ2 := 4004, quality := 188, flag := 2 }]) ∧
    ((readings twoReadings = [] ∧
        ascendScanData sortByAngle twoReadings = some (.operationFail, twoReadings)) ∨
      ∃ first ascending, firstValid twoReadings = some first ∧
        ascendScanData sortByAngle twoReadings = some (.ok, ascending) ∧
        SortedOn 0 5 (ascending.map HqNode.getAngle) ∧
        (readings ascending).Perm (readings twoReadings) ∧
        ascending.Perm (withAngles twoReadings first)) :=
  ⟨by decide +kernel, ascended sortsByAngle_sortByAngle (by norm_num) (by decide)⟩

end MonitoringRobot.Lidar
