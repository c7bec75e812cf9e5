import Mathlib.Data.Fintype.EquivFin
import MonitoringRobot.Base.Writes
import MonitoringRobot.Lidar.Ascend

/-!
# Publishing a scan

The ROS node (`edge_packages/src/rplidar_ros/src/rplidar_node.cpp:225-286,466-540`) puts the
ascending scan into a `LaserScan`: with angle compensation through a table of equal angles, without
it from the first reading to the last one. `publish_scan` computes where in the message a node goes;
distances and intensities are written to the same position, but an intensity is read from there,
too. A read or a write outside an array, and a number that does not fit its type, give no result.
-/

namespace MonitoringRobot.Lidar
open MonitoringRobot.Base

variable {n : Nat}

/-! ### The message -/

/-- `M_PI`. -/
def mPi : ℚ := 884279719003555 / 2 ^ 48

/-- `DEG2RAD`, stored in a `float`. -/
def deg2rad (x : ℚ) : ℚ := f32 (f64 (f64 (x * mPi) / 180))

/-- A division of doubles. -/
def divide (x y : ℚ) : ExtRat :=
  if y = 0 then if x = 0 then .nan else .inf (x < 0) else .fin (f64 (x / y))

/-- A double stored in a `float`. -/
def toFloat : ExtRat → ExtRat
  | .fin q => .fin (f32 q)
  | x => x

/-- `(double)(node_count-1)`: without nodes the difference wraps around. -/
def countLessOne (nodeCount : Nat) : ℚ := f64 (((nodeCount : ℤ) - 1) % 2 ^ 64 : ℤ)

/-- `sensor_msgs::msg::LaserScan`. -/
structure LaserScan (n : Nat) where
  stamp : ℚ
  frameId : String
  angleMin : ℚ
  angleMax : ℚ
  angleIncrement : ExtRat
  timeIncrement : ExtRat
  scanTime : ℚ
  rangeMin : ℚ
  rangeMax : ℚ
  ranges : Vector ExtRat n
  intensities : Vector ℚ n
deriving DecidableEq

/-- The arguments of `publish_scan` other than the nodes. -/
structure ScanArgs where
  start : ℚ
  scanTime : ℚ
  inverted : Bool
  flipXAxis : Bool
  angleMin : ℚ
  angleMax : ℚ
  maxDistance : ℚ
  frameId : String

/-- `reversed`. -/
def ScanArgs.reversed (args : ScanArgs) : Bool := args.angleMin < args.angleMax

/-- `reverse_data`. -/
def ScanArgs.reverseData (args : ScanArgs) : Bool :=
  (!args.inverted && args.reversed) || (args.inverted && !args.reversed)

/-- From the last node to the first. -/
def mirror (i : Fin n) : Fin n := ⟨n - 1 - i, by omega⟩

/-- Half a turn further; `scan_midpoint` is `node_count / 2`. -/
def halfTurn (i : Fin n) : Fin n :=
  if h : n / 2 ≤ i.val then ⟨i - n / 2, by omega⟩ else ⟨i + n / 2, by omega⟩

/-- `apply_index`. -/
def applyIndex (reverseData flipXAxis : Bool) (i : Fin n) : Fin n :=
  let applied := if reverseData then mirror i else i
  if flipXAxis then halfTurn applied else applied

namespace HqNode

/-- `read_value`, in metres. -/
def readValue (node : HqNode) : ℚ := f32 (f32 (f32 node.distMmQ2 / 4) / 1000)

/-- A node without a reading is infinitely far away. -/
def range (node : HqNode) : ExtRat :=
  if node.readValue = 0 then .inf false else .fin node.readValue

/-- `quality >> 2`. -/
def intensity (node : HqNode) : ℚ := (node.quality >>> 2 : Nat)

end HqNode

/-- A node of zeros. -/
def blankNode : HqNode := { angleZQ14 := 0, distMmQ2 := 0, quality := 0, flag := 0 }

/-- `publish_scan`. Vectors of `resize` start with zeros. -/
def publishScan (args : ScanArgs) (nodes : Vector HqNode n) : LaserScan n :=
  let applied : Fin n → Fin n := applyIndex args.reverseData args.flipXAxis
  let angleMin := f32 (f64 (mPi - if args.reversed then args.angleMax else args.angleMin))
  let angleMax := f32 (f64 (mPi - if args.reversed then args.angleMin else args.angleMax))
  { stamp := args.start
    frameId := args.frameId
    angleMin
    angleMax
    angleIncrement := toFloat (divide (f32 (angleMax - angleMin)) (countLessOne n))
    timeIncrement := toFloat (divide args.scanTime (countLessOne n))
    scanTime := f32 args.scanTime
    rangeMin := f32 (f64 (15 / 100))
    rangeMax := args.maxDistance
    ranges := writeAll ((List.finRange n).map fun i ↦ (applied i, (nodes.get i).range))
      (.replicate n (.fin 0))
    intensities :=
      writeAll ((List.finRange n).map fun i ↦ (applied i, (nodes.get (applied i)).intensity))
        (.replicate n 0) }

/-! ### Positions -/

theorem halfTurn_val (i : Fin n) :
    (halfTurn i).val = if n / 2 ≤ i.val then i.val - n / 2 else i.val + n / 2 := by
  unfold halfTurn
  split <;> rfl

theorem mirror_injective : Function.Injective (mirror (n := n)) := by
  intro i j heq
  have hval : n - 1 - i.val = n - 1 - j.val := congrArg Fin.val heq
  ext
  omega

theorem halfTurn_injective (h : n % 2 = 0 ∨ n = 1) : Function.Injective (halfTurn (n := n)) := by
  intro i j heq
  have hval := congrArg Fin.val heq
  rw [halfTurn_val, halfTurn_val] at hval
  ext
  split_ifs at hval <;> omega

/-- Unless half a turn of an odd number of nodes is added, no two nodes go to one position. -/
theorem applyIndex_injective {reverseData flipXAxis : Bool}
    (h : flipXAxis = false ∨ n % 2 = 0 ∨ n = 1) :
    Function.Injective (applyIndex (n := n) reverseData flipXAxis) := by
  have hmirror : Function.Injective fun i : Fin n ↦ if reverseData then mirror i else i := by
    cases reverseData
    · exact Function.injective_id
    · exact mirror_injective
  cases flipXAxis with
  | false => exact hmirror
  | true =>
    have heven : n % 2 = 0 ∨ n = 1 := by simpa using h
    exact (halfTurn_injective heven).comp hmirror

/-- An odd number of nodes with half a turn added leaves the last position out. -/
theorem applyIndex_ne_last {reverseData : Bool} (hodd : n % 2 = 1) (hn : n ≠ 1) (i : Fin n) :
    (applyIndex reverseData true i).val ≠ n - 1 := by
  simp only [applyIndex, if_true, halfTurn_val]
  split_ifs <;> omega

theorem applyIndex_eq_self {reverseData flipXAxis : Bool}
    (h : n ≤ 1 ∨ (reverseData = false ∧ flipXAxis = false) ∨ (n = 2 ∧ reverseData = flipXAxis))
    (i : Fin n) : applyIndex reverseData flipXAxis i = i := by
  ext
  rcases h with hone | ⟨rfl, rfl⟩ | ⟨rfl, rfl⟩
  · omega
  · rfl
  · cases reverseData
    · rfl
    · simp only [applyIndex, if_true, halfTurn_val, mirror]
      split_ifs <;> omega

theorem applyIndex_zero_ne {reverseData flipXAxis : Bool} (hn : 1 < n)
    (h : reverseData = true ∨ flipXAxis = true) (h' : n ≠ 2 ∨ reverseData ≠ flipXAxis) :
    (applyIndex reverseData flipXAxis ⟨0, by omega⟩ : Fin n).val ≠ 0 := by
  cases flipXAxis with
  | false =>
    obtain rfl : reverseData = true := by simpa using h
    simp only [applyIndex, if_true, Bool.false_eq_true, if_false, mirror]
    omega
  | true =>
    cases reverseData
    · simp only [applyIndex, if_true, Bool.false_eq_true, if_false, halfTurn_val]
      split_ifs <;> omega
    · have hne : n ≠ 2 := by simpa using h'
      simp only [applyIndex, if_true, halfTurn_val, mirror]
      split_ifs <;> omega

/-! ### Distances and intensities -/

theorem HqNode.readValue_eq_zero_iff (node : HqNode) : node.readValue = 0 ↔ node.distMmQ2 = 0 := by
  constructor
  · intro h
    by_contra hne
    have hdist : (0 : ℚ) < node.distMmQ2 := by exact_mod_cast Nat.pos_of_ne_zero hne
    have hpos : 0 < node.readValue :=
      roundTo_pos (by decide) (div_pos (roundTo_pos (by decide)
        (div_pos (roundTo_pos (by decide) hdist) (by norm_num))) (by norm_num))
    exact hpos.ne' h
  · intro h
    simp [readValue, h, f32]

theorem HqNode.range_of_isValid {node : HqNode} (h : node.IsValid) :
    node.range = .fin node.readValue :=
  if_neg (fun hzero ↦ h (node.readValue_eq_zero_iff.mp hzero))

theorem HqNode.range_of_not_isValid {node : HqNode} (h : ¬ node.IsValid) :
    node.range = .inf false :=
  if_pos (node.readValue_eq_zero_iff.mpr (not_not.mp h))

theorem HqNode.range_ne_zero (node : HqNode) : node.range ≠ .fin 0 := by
  unfold range
  split
  · simp
  · next hne => simpa using hne

theorem publishScan_ranges (args : ScanArgs) (nodes : Vector HqNode n)
    (h : args.flipXAxis = false ∨ n % 2 = 0 ∨ n = 1) (i : Fin n) :
    (publishScan args nodes).ranges.get (applyIndex args.reverseData args.flipXAxis i) =
      (nodes.get i).range :=
  getElem_writeAll_of_injective (applyIndex_injective h) (fun i ↦ (nodes.get i).range) _ i

theorem publishScan_intensities (args : ScanArgs) (nodes : Vector HqNode n)
    (h : args.flipXAxis = false ∨ n % 2 = 0 ∨ n = 1) (i : Fin n) :
    (publishScan args nodes).intensities.get (applyIndex args.reverseData args.flipXAxis i) =
      (nodes.get (applyIndex args.reverseData args.flipXAxis i)).intensity :=
  getElem_writeAll_of_injective (applyIndex_injective h)
    (fun i ↦ (nodes.get (applyIndex args.reverseData args.flipXAxis i)).intensity) _ i

/-- With an odd number of nodes and half a turn added the last distance stays zero. -/
theorem publishScan_last {args : ScanArgs} (nodes : Vector HqNode n)
    (hflip : args.flipXAxis = true) (hodd : n % 2 = 1) (hn : n ≠ 1) :
    (publishScan args nodes).ranges[n - 1] = .fin 0 := by
  have hne : ∀ w ∈ (List.finRange n).map fun i ↦
      (applyIndex args.reverseData args.flipXAxis i, (nodes.get i).range), w.1 ≠ ⟨n - 1, by omega⟩ := by
    intro w hw heq
    obtain ⟨i, _, rfl⟩ := List.mem_map.mp hw
    rw [hflip] at heq
    exact applyIndex_ne_last hodd hn i (congrArg Fin.val heq)
  have hkept := getElem_writeAll_of_ne (.replicate n (ExtRat.fin 0)) hne
  simpa [publishScan] using hkept

theorem toList_eq_map {α : Type} (xs : Vector α n) : xs.toList = (List.finRange n).map xs.get := by
  apply List.ext_getElem
  · simp
  · intro i hi hi'
    simp

/-- A scan with its distances moved around has all distances of the nodes, each once, unless half
a turn of an odd number of nodes is added: then the last distance stays zero, which no node has. -/
theorem ranges_perm_iff (args : ScanArgs) :
    ((∀ nodes : Vector HqNode n,
      (publishScan args nodes).ranges.toList.Perm (nodes.toList.map HqNode.range)) ↔
      args.flipXAxis = false ∨ n % 2 = 0 ∨ n = 1) ∧
    ∀ nodes : Vector HqNode n, args.flipXAxis = true → n % 2 = 1 → n ≠ 1 →
      (publishScan args nodes).ranges.toList.getLast? = some (.fin 0) ∧
      .fin 0 ∉ nodes.toList.map HqNode.range := by
  have hzero : ∀ nodes : Vector HqNode n, .fin 0 ∉ nodes.toList.map HqNode.range := by
    intro nodes hmem
    obtain ⟨node, _, heq⟩ := List.mem_map.mp hmem
    exact node.range_ne_zero heq
  refine ⟨⟨?_, ?_⟩, ?_⟩
  · intro hperm
    by_contra hnot
    simp only [not_or, Bool.not_eq_false] at hnot
    obtain ⟨hflip, hodd, hn⟩ := hnot
    have hmem : ExtRat.fin 0 ∈ (publishScan args (.replicate n blankNode)).ranges.toList := by
      rw [← publishScan_last (.replicate n blankNode) hflip (by omega) hn]
      exact Vector.mem_toList_iff.mpr (Vector.getElem_mem (by omega))
    exact hzero _ ((hperm _).mem_iff.mp hmem)
  · intro h nodes
    have hinj : Function.Injective (applyIndex (n := n) args.reverseData args.flipXAxis) :=
      applyIndex_injective h
    have hmoved := Equiv.Perm.map_finRange_perm
      (Equiv.ofBijective _ ⟨hinj, Finite.injective_iff_surjective.mp hinj⟩)
    have hnodes : nodes.toList.map HqNode.range =
        ((List.finRange n).map (applyIndex args.reverseData args.flipXAxis)).map
          (publishScan args nodes).ranges.get := by
      rw [toList_eq_map, List.map_map, List.map_map]
      apply List.map_congr_left
      intro i _
      exact (publishScan_ranges args nodes h i).symm
    rw [hnodes, toList_eq_map]
    exact (hmoved.map _).symm
  · intro nodes hflip hodd hn
    refine ⟨?_, hzero nodes⟩
    rw [List.getLast?_eq_getElem?, Vector.length_toList, List.getElem?_eq_getElem (by simp; omega),
      Vector.getElem_toList]
    exact congrArg some (publishScan_last nodes hflip hodd hn)

/-- One reading among others of another distance and intensity. -/
def markedFirst (n : Nat) : Vector HqNode n :=
  .ofFn fun i ↦
    if i.val = 0 then { angleZQ14 := 0, distMmQ2 := 4000, quality := 4, flag := 0 }
    else { angleZQ14 := 0, distMmQ2 := 8000, quality := 0, flag := 0 }

/-- The intensities follow the distances, so that every entry of the message is about one node,
only if no node is moved: with data that is not reversed and not turned, or with less than three
nodes. -/
theorem intensities_follow_iff (args : ScanArgs) :
    (∀ (nodes : Vector HqNode n) (k : Fin n), ∃ node ∈ nodes,
      (publishScan args nodes).ranges.get k = node.range ∧
      (publishScan args nodes).intensities.get k = node.intensity) ↔
      n ≤ 1 ∨ (args.reverseData = false ∧ args.flipXAxis = false) ∨
        (n = 2 ∧ args.reverseData = args.flipXAxis) := by
  constructor
  · intro h
    by_contra hnot
    simp only [not_or, not_and_or, Bool.not_eq_false, not_le] at hnot
    obtain ⟨hn, hmoved, hthree⟩ := hnot
    by_cases hlost : args.flipXAxis = false ∨ n % 2 = 0 ∨ n = 1
    · have hzero := applyIndex_zero_ne hn hmoved hthree
      obtain ⟨node, hmem, hrange, hintensity⟩ := h (markedFirst n)
        (applyIndex args.reverseData args.flipXAxis ⟨0, by omega⟩)
      rw [publishScan_ranges _ _ hlost] at hrange
      rw [publishScan_intensities _ _ hlost] at hintensity
      obtain ⟨i, hi, rfl⟩ := Vector.mem_iff_getElem.mp hmem
      simp only [markedFirst, get_ofFn, Vector.getElem_ofFn, hzero, if_true, if_false]
        at hrange hintensity
      split at hrange
      · next hi0 =>
        rw [if_pos hi0] at hintensity
        exact absurd hintensity (by decide +kernel)
      · exact absurd hrange (by decide +kernel)
    · simp only [not_or, Bool.not_eq_false] at hlost
      obtain ⟨node, _, hrange, _⟩ := h (.replicate n blankNode) ⟨n - 1, by omega⟩
      have hlast := publishScan_last (.replicate n blankNode) hlost.1 (by omega) hlost.2.2
      exact node.range_ne_zero (hrange.symm.trans hlast)
  · intro h nodes k
    have hinj : args.flipXAxis = false ∨ n % 2 = 0 ∨ n = 1 := by
      rcases h with hone | ⟨_, hflip⟩ | ⟨rfl, _⟩
      · omega
      · exact Or.inl hflip
      · exact Or.inr (Or.inl rfl)
    have hrange := publishScan_ranges args nodes hinj k
    have hintensity := publishScan_intensities args nodes hinj k
    simp only [applyIndex_eq_self h] at hrange hintensity
    exact ⟨nodes.get k, Vector.getElem_mem k.isLt, hrange, hintensity⟩

/-! ### Angle compensation -/

/-- `(int)v`. -/
def toI32 (v : ℚ) : Option ℤ := if -2 ^ 31 - 1 < v ∧ v < 2 ^ 31 then some (truncate v) else none

/-- A store through an `int` index. -/
def storeAt (index : ℤ) (node : HqNode) (table : Vector HqNode n) : Option (Vector HqNode n) :=
  if h : 0 ≤ index ∧ index < n then some (table.set index.toNat node (by omega)) else none

/-- Indices behind the table become the last one. -/
def withinTable (count : Nat) (index : ℤ) : ℤ := if (count : ℤ) ≤ index then count - 1 else index

/-- The loop over `j`: a node goes to the entries of its angle. -/
def compensateNode (multiple : Nat) (node : HqNode) (offset : ℤ)
    (table : Vector HqNode (360 * multiple)) :
    Option (ℤ × Vector HqNode (360 * multiple)) := do
  let angleValue ← toI32 (f32 (node.getAngle * f32 multiple))
  let offset := if angleValue - offset < 0 then angleValue else offset
  let table ← (List.range multiple).foldlM (fun table (j : Nat) ↦
    storeAt (withinTable (360 * multiple) (angleValue - offset + j)) node table) table
  some (offset, table)

/-- The loop over the nodes, with the offset and the table. -/
def compensateStep (multiple : Nat) (s : ℤ × Vector HqNode (360 * multiple)) (node : HqNode) :
    Option (ℤ × Vector HqNode (360 * multiple)) :=
  if node.IsValid then compensateNode multiple node s.1 s.2 else some s

/-- The table of `360 * angle_compensate_multiple` nodes. -/
def angleCompensateNodes (multiple : Nat) (nodes : Vector HqNode n) :
    Option (Vector HqNode (360 * multiple)) :=
  (nodes.toList.foldlM (compensateStep multiple) (0, .replicate _ blankNode)).map (·.2)

/-! ### A grabbed scan -/

/-- The members of the node that publishing reads. -/
structure NodeParams where
  inverted : Bool
  flipXAxis : Bool
  angleCompensate : Bool
  angleCompensateMultiple : Nat
  maxDistance : ℚ
  frameId : String

/-- The arguments for a scan of the given angles. -/
def NodeParams.args (p : NodeParams) (start scanDuration angleMin angleMax : ℚ) : ScanArgs where
  start := start
  scanTime := scanDuration
  inverted := p.inverted
  flipXAxis := p.flipXAxis
  angleMin := angleMin
  angleMax := angleMax
  maxDistance := p.maxDistance
  frameId := p.frameId

/-- The arguments for a whole turn. -/
def NodeParams.turnArgs (p : NodeParams) (start scanDuration : ℚ) : ScanArgs :=
  p.args start scanDuration (deg2rad 0) (deg2rad 359)

/-- Without compensation, from the first reading to the last one. The loops that look for them do
not stop at the end of the scan. -/
def publishReadings (p : NodeParams) (start scanDuration : ℚ) (nodes : Vector HqNode n) :
    Option ((n : Nat) × LaserScan n) := do
  let startNode ← firstValid nodes
  let endNode ← lastValid nodes
  some ⟨_, publishScan (p.args start scanDuration (deg2rad (nodes.get startNode).getAngle)
    (deg2rad (nodes.get endNode).getAngle)) (nodes.extract startNode (endNode + 1))⟩

/-- What `work_loop` does with a scan it grabbed. -/
def publishGrabbed (p : NodeParams) (sort : Vector HqNode n → Vector HqNode n)
    (start scanDuration : ℚ) (nodes : Vector HqNode n) : Option ((n : Nat) × LaserScan n) := do
  match ← ascendScanData sort nodes with
  | (.ok, nodes) =>
    if p.angleCompensate then
      let table ← angleCompensateNodes p.angleCompensateMultiple nodes
      some ⟨_, publishScan (p.turnArgs start scanDuration) table⟩
    else publishReadings p start scanDuration nodes
  | (.operationFail, nodes) => some ⟨_, publishScan (p.turnArgs start scanDuration) nodes⟩

/-! ### What the table holds -/

/-- `angle_value`. -/
def angleValue (multiple : Nat) (node : HqNode) : Nat :=
  ⌊f32 (node.getAngle * f32 multiple)⌋₊

/-- An angle fits an `int`, so that the offset stays zero. -/
theorem toI32_angle {multiple : Nat} (hm : 360 * multiple ≤ 2 ^ 30) {node : HqNode}
    (hfit : node.angleZQ14 < 2 ^ 16) :
    toI32 (f32 (node.getAngle * f32 multiple)) = some (angleValue multiple node : ℤ) := by
  have hmultiple : (360 : ℚ) * multiple ≤ 2 ^ 30 := by exact_mod_cast hm
  have hnonneg : 0 ≤ node.getAngle := degrees_nonneg _
  have hle : node.getAngle ≤ 360 := degrees_le hfit
  have hcast : f32 multiple = multiple := f32_natCast (by omega)
  have hproduct : node.getAngle * f32 multiple ≤ 2 ^ 30 := by
    rw [hcast]
    exact (mul_le_mul_of_nonneg_right hle (Nat.cast_nonneg multiple)).trans hmultiple
  have hpos : 0 ≤ f32 (node.getAngle * f32 multiple) := by
    apply roundTo_nonneg
    rw [hcast]
    positivity
  have hbound : f32 (node.getAngle * f32 multiple) ≤ 2 ^ 30 :=
    f32_le (by decide +kernel) hproduct
  have hint : -2 ^ 31 - 1 < f32 (node.getAngle * f32 multiple) ∧
      f32 (node.getAngle * f32 multiple) < 2 ^ 31 := by
    constructor <;> linarith
  rw [toI32, if_pos hint, truncate, if_pos hpos, angleValue, Int.natCast_floor_eq_floor hpos]

/-- The entry of the table for an index; the last one for indices behind it. -/
def slot {multiple : Nat} (h : 0 < multiple) (index : Nat) : Fin (360 * multiple) :=
  ⟨min index (360 * multiple - 1), by omega⟩

/-- The entries a node goes to. -/
def slots {multiple : Nat} (h : 0 < multiple) (node : HqNode) : List (Fin (360 * multiple)) :=
  (List.range multiple).map fun j ↦ slot h (angleValue multiple node + j)

/-- A node goes to the entries of the next `multiple` angles, as far as there are any. -/
def Covers (multiple : Nat) (node : HqNode) (k : Nat) : Prop :=
  (angleValue multiple node ≤ k ∨ k + 1 = 360 * multiple) ∧ k < angleValue multiple node + multiple

instance (multiple : Nat) (node : HqNode) (k : Nat) : Decidable (Covers multiple node k) :=
  inferInstanceAs (Decidable (_ ∧ _))

theorem mem_slots_iff {multiple : Nat} (h : 0 < multiple) {node : HqNode}
    {k : Fin (360 * multiple)} : k ∈ slots h node ↔ Covers multiple node k := by
  have hk := k.isLt
  simp only [slots, List.mem_map, List.mem_range, Covers, slot, Fin.ext_iff]
  constructor
  · rintro ⟨j, hj, heq⟩
    omega
  · rintro ⟨hstart | hlast, hend⟩
    · exact ⟨k - angleValue multiple node, by omega, by omega⟩
    · by_cases hle : angleValue multiple node ≤ k
      · exact ⟨k - angleValue multiple node, by omega, by omega⟩
      · exact ⟨0, h, by omega⟩

theorem storeAt_slot {multiple : Nat} (h : 0 < multiple) (index : Nat) (node : HqNode)
    (table : Vector HqNode (360 * multiple)) :
    storeAt (withinTable (360 * multiple) index) node table =
      some (table.set (slot h index) node) := by
  have hslot : withinTable (360 * multiple) index = ((slot h index).val : ℤ) := by
    simp only [slot, withinTable]
    split <;> omega
  have hlt := (slot h index).isLt
  rw [hslot, storeAt, dif_pos (by omega)]
  simp only [Int.toNat_natCast]

theorem foldlM_storeAt {multiple : Nat} (h : 0 < multiple) (start : Nat) (node : HqNode)
    (js : List Nat) (table : Vector HqNode (360 * multiple)) :
    js.foldlM (fun table (j : Nat) ↦
      storeAt (withinTable (360 * multiple) ((start : ℤ) - 0 + j)) node table) table =
      some (writeAll ((js.map fun j ↦ slot h (start + j)).map (·, node)) table) := by
  induction js generalizing table with
  | nil => rfl
  | cons j js ih =>
    have hindex : (start : ℤ) - 0 + j = ((start + j : Nat) : ℤ) := by omega
    rw [List.foldlM_cons, hindex, storeAt_slot h, Option.bind_eq_bind, Option.bind_some, ih]
    rfl

theorem compensateStep_eq {multiple : Nat} (h : 0 < multiple) (hm : 360 * multiple ≤ 2 ^ 30)
    {node : HqNode} (hfit : node.angleZQ14 < 2 ^ 16) (table : Vector HqNode (360 * multiple)) :
    compensateStep multiple (0, table) node = some (0,
      if node.IsValid then writeAll ((slots h node).map (·, node)) table else table) := by
  unfold compensateStep
  split
  · have hoffset : ¬ (angleValue multiple node : ℤ) - 0 < 0 := by omega
    simp only [compensateNode, toI32_angle hm hfit, Option.bind_eq_bind, Option.bind_some,
      if_neg hoffset, foldlM_storeAt h, slots]
  · rfl

theorem foldlM_compensateStep {multiple : Nat} (h : 0 < multiple) (hm : 360 * multiple ≤ 2 ^ 30)
    {nodes : List HqNode} (hfit : ∀ node ∈ nodes, node.angleZQ14 < 2 ^ 16)
    (table : Vector HqNode (360 * multiple)) :
    nodes.foldlM (compensateStep multiple) (0, table) = some (0,
      writeAll ((nodes.filter (·.IsValid)).flatMap fun node ↦ (slots h node).map (·, node))
        table) := by
  induction nodes generalizing table with
  | nil => rfl
  | cons node nodes ih =>
    rw [List.foldlM_cons, compensateStep_eq h hm (hfit node (List.mem_cons_self ..)),
      Option.bind_eq_bind, Option.bind_some, ih fun _ hmem ↦ hfit _ (List.mem_cons_of_mem _ hmem),
      List.filter_cons]
    by_cases hvalid : node.IsValid
    · rw [if_pos hvalid, if_pos (decide_eq_true hvalid), List.flatMap_cons, writeAll_append]
    · rw [if_neg hvalid, if_neg (by simpa using hvalid)]

/-- Every entry of the table holds the last node of the scan with a reading for its angle. -/
theorem angleCompensateNodes_eq {multiple : Nat} (h : 0 < multiple) (hm : 360 * multiple ≤ 2 ^ 30)
    {nodes : Vector HqNode n} (hfit : AnglesFit nodes) :
    ∃ table, angleCompensateNodes multiple nodes = some table ∧ ∀ k : Fin (360 * multiple),
      table.get k = (((readings nodes).filter (Covers multiple · k)).getLast?).getD blankNode := by
  have hmem : ∀ node ∈ nodes.toList, node.angleZQ14 < 2 ^ 16 := by
    intro node hnode
    obtain ⟨i, hi, rfl⟩ := Vector.mem_iff_getElem.mp (Vector.mem_toList_iff.mp hnode)
    exact hfit i hi
  have hloop := foldlM_compensateStep h hm hmem (.replicate (360 * multiple) blankNode)
  refine ⟨_, by rw [angleCompensateNodes, hloop]; rfl, ?_⟩
  intro k
  have hfilter : (readings nodes).filter (k ∈ slots h ·) =
      (readings nodes).filter (Covers multiple · k) := by
    apply List.filter_congr
    intro node _
    simp only [mem_slots_iff h]
  have hblank : (Vector.replicate (360 * multiple) blankNode).get k = blankNode :=
    Vector.getElem_replicate k.isLt
  rw [getElem_writeAll_flatMap, hblank]
  exact congrArg (fun found ↦ found.getLast?.getD blankNode) hfilter

/-! ### What the message holds -/

theorem filledQ14_lt (n : Nat) (frontAngle : ℚ) (i : Nat) : filledQ14 n frontAngle i < 2 ^ 16 :=
  angleQ14_lt _

theorem frontQ14_lt {nodes : Vector HqNode n} (hfit : AnglesFit nodes) (first : Fin n) :
    frontQ14 nodes first < 2 ^ 16 := by
  unfold frontQ14
  cases hsteps : first.val with
  | zero => exact hfit first first.isLt
  | succ i =>
    rw [Function.iterate_succ_apply']
    exact angleQ14_lt _

theorem AnglesFit.withAngles {nodes : Vector HqNode n} (hfit : AnglesFit nodes) (first : Fin n) :
    AnglesFit (withAngles nodes first) := by
  intro i hi
  rw [getElem_withAngles]
  split
  · exact hfit i hi
  · simp only
    split
    · exact frontQ14_lt hfit first
    · exact filledQ14_lt ..

theorem AnglesFit.perm {xs ys : Vector HqNode n} (hfit : AnglesFit xs) (h : ys.Perm xs) :
    AnglesFit ys := by
  intro i hi
  obtain ⟨j, hj, heq⟩ := Vector.mem_iff_getElem.mp (h.mem_iff.mp (Vector.getElem_mem hi))
  rw [← heq]
  exact hfit j hj

theorem exists_ascending {sort : Vector HqNode n → Vector HqNode n} (hsort : SortsByAngle sort)
    (hn : n ≤ 2 ^ 24) {nodes : Vector HqNode n} (hfit : AnglesFit nodes)
    (hreading : readings nodes ≠ []) :
    ∃ ascending, ascendScanData sort nodes = some (.ok, ascending) ∧ AnglesFit ascending ∧
      SortedOn 0 n (ascending.map HqNode.getAngle) ∧
      (readings ascending).Perm (readings nodes) := by
  cases hfirst : firstValid nodes with
  | none => exact absurd (firstValid_eq_none.mp hfirst) hreading
  | some first =>
    have hperm := hsort.perm (withAngles nodes first)
    refine ⟨_, ascendScanData_eq sort hn hfit hfirst, (hfit.withAngles first).perm hperm,
      hsort.sorted _, ?_⟩
    rw [← readings_withAngles nodes first]
    exact hperm.toList.filter _

/-- With angle compensation every scan with a reading is published as 360 or a multiple of 360
distances: at each angle the reading there, of several ones the last in ascending order, and
infinity where there is none. No conversion and no store is out of range, and half a turn more does
not lose any. -/
theorem compensated_beams {p : NodeParams} (hcompensate : p.angleCompensate = true)
    (h : 0 < p.angleCompensateMultiple) (hm : 360 * p.angleCompensateMultiple ≤ 2 ^ 30)
    {sort : Vector HqNode n → Vector HqNode n} (hsort : SortsByAngle sort) (hn : n ≤ 2 ^ 24)
    {nodes : Vector HqNode n} (hfit : AnglesFit nodes) (hreading : readings nodes ≠ [])
    (start scanDuration : ℚ) :
    ∃ ascending message, ascendScanData sort nodes = some (.ok, ascending) ∧
      publishGrabbed p sort start scanDuration nodes =
        some ⟨360 * p.angleCompensateMultiple, message⟩ ∧
      ∀ k : Fin (360 * p.angleCompensateMultiple),
        message.ranges.get (applyIndex (!p.inverted) p.flipXAxis k) =
          (((readings ascending).filter (Covers p.angleCompensateMultiple · k)).getLast?.map
            HqNode.range).getD (.inf false) := by
  obtain ⟨ascending, hascend, hascendFit, _, _⟩ := exists_ascending hsort hn hfit hreading
  obtain ⟨table, htable, hentries⟩ := angleCompensateNodes_eq h hm hascendFit
  refine ⟨ascending, publishScan (p.turnArgs start scanDuration) table, hascend, ?_, ?_⟩
  · simp only [publishGrabbed, hascend, hcompensate, htable, Option.bind_eq_bind, Option.bind_some,
      if_true]
  · intro k
    have heven : 360 * p.angleCompensateMultiple % 2 = 0 := by omega
    have hrange := publishScan_ranges (p.turnArgs start scanDuration) table
      (Or.inr (Or.inl heven)) k
    have hreverse : (p.turnArgs start scanDuration).reverseData = !p.inverted := by
      have hreversed : (p.turnArgs start scanDuration).reversed = true := by
        exact (by decide +kernel : decide (deg2rad 0 < deg2rad 359) = true)
      rw [ScanArgs.reverseData, hreversed]
      cases hinverted : p.inverted <;> simp [NodeParams.turnArgs, NodeParams.args, hinverted]
    have hblank : blankNode.range = .inf false := by decide +kernel
    simp only [hreverse] at hrange
    refine hrange.trans ?_
    rw [hentries k]
    cases ((readings ascending).filter (Covers p.angleCompensateMultiple · k)).getLast? with
    | none => exact hblank
    | some node => rfl

/-- The defaults of the launch file, with the distance the device reports. -/
def launchParams : NodeParams where
  inverted := false
  flipXAxis := false
  angleCompensate := true
  angleCompensateMultiple := 1
  maxDistance := 12
  frameId := "laser"

theorem compensated_beams_twoReadings :
    (readings twoReadings).map (angleValue 1) = [90, 329] ∧
    ∃ ascending message, ascendScanData sortByAngle twoReadings = some (.ok, ascending) ∧
      publishGrabbed launchParams sortByAngle 0 1 twoReadings = some ⟨360 * 1, message⟩ ∧
      ∀ k : Fin (360 * 1), message.ranges.get (applyIndex true false k) =
        (((readings ascending).filter (Covers 1 · k)).getLast?.map HqNode.range).getD
          (.inf false) :=
  ⟨by decide +kernel, compensated_beams (p := launchParams) rfl (by decide) (by decide)
    sortsByAngle_sortByAngle (by decide) (by decide) (by decide) 0 1⟩

/-- The scan from the first reading to the last one; before it and behind it there are none. -/
theorem exists_parts {nodes : Vector HqNode n} {s e : Fin n} (hs : firstValid nodes = some s)
    (he : lastValid nodes = some e) :
    ∃ before behind, nodes.toList = before ++ (nodes.extract s (e + 1)).toList ++ behind ∧
      (∀ node ∈ before ++ behind, ¬ node.IsValid) ∧
      (nodes.extract s (e + 1)).toList.head? = some (nodes.get s) ∧
      (nodes.extract s (e + 1)).toList.getLast? = some (nodes.get e) := by
  obtain ⟨hvalid, hbefore⟩ := firstValid_eq_some hs
  obtain ⟨_, hbehind⟩ := lastValid_eq_some he
  have hse : s.val ≤ e := hbehind s s.isLt hvalid
  have he' := e.isLt
  have hmiddle : (nodes.extract s (e + 1)).toList = (nodes.toList.drop s).take (e + 1 - s) :=
    (Array.toList_extract).trans List.extract_eq_take_drop
  have hlength : ((nodes.toList.drop s).take (e + 1 - s)).length = e + 1 - s := by
    rw [List.length_take, List.length_drop, Vector.length_toList]
    omega
  refine ⟨nodes.toList.take s, nodes.toList.drop (e + 1), ?_, ?_, ?_, ?_⟩
  · have hrest : nodes.toList.drop (e + 1) = (nodes.toList.drop s).drop (e + 1 - s) := by
      rw [List.drop_drop]
      congr 1
      omega
    rw [hmiddle, hrest, List.append_assoc, List.take_append_drop, List.take_append_drop]
  · intro node hmem hnode
    rcases List.mem_append.mp hmem with hleft | hright
    · obtain ⟨i, hi, rfl⟩ := List.mem_iff_getElem.mp hleft
      rw [List.length_take, Vector.length_toList] at hi
      rw [List.getElem_take, Vector.getElem_toList] at hnode
      have hle := hbefore i (by omega) hnode
      omega
    · obtain ⟨i, hi, rfl⟩ := List.mem_iff_getElem.mp hright
      rw [List.length_drop, Vector.length_toList] at hi
      rw [List.getElem_drop, Vector.getElem_toList] at hnode
      have hle := hbehind (e + 1 + i) (by omega) hnode
      omega
  · rw [hmiddle, List.head?_eq_getElem?, List.getElem?_eq_getElem (by omega), List.getElem_take,
      List.getElem_drop, Vector.getElem_toList]
    rfl
  · rw [hmiddle, List.getLast?_eq_getElem?, hlength, List.getElem?_eq_getElem (by omega),
      List.getElem_take, List.getElem_drop, Vector.getElem_toList]
    have hlast : s.val + (e + 1 - s - 1) = e := by omega
    simp only [hlast]
    rfl

theorem filter_parts {all before scan behind : List HqNode} (h : all = before ++ scan ++ behind)
    (hnone : ∀ node ∈ before ++ behind, ¬ node.IsValid) :
    scan.filter (·.IsValid) = all.filter (·.IsValid) := by
  have hbefore : before.filter (·.IsValid) = [] :=
    List.filter_eq_nil_iff.mpr fun node hmem ↦ by
      simpa using hnone node (List.mem_append_left _ hmem)
  have hbehind : behind.filter (·.IsValid) = [] :=
    List.filter_eq_nil_iff.mpr fun node hmem ↦ by
      simpa using hnone node (List.mem_append_right _ hmem)
  rw [h, List.filter_append, List.filter_append, hbefore, hbehind, List.nil_append,
    List.append_nil]

theorem deg2rad_mono {x y : ℚ} (h : x ≤ y) : deg2rad x ≤ deg2rad y := by
  have hpi : 0 ≤ mPi := by decide +kernel
  apply roundTo_mono (by decide)
  apply f64_mono
  exact div_le_div_of_nonneg_right (f64_mono (mul_le_mul_of_nonneg_right h hpi)) (by norm_num)

/-- The angles of a message about a scan in ascending order count the other way around. -/
theorem publishScan_angles (args : ScanArgs) (h : args.angleMin ≤ args.angleMax)
    (nodes : Vector HqNode n) :
    (publishScan args nodes).angleMin = f32 (f64 (mPi - args.angleMax)) ∧
      (publishScan args nodes).angleMax = f32 (f64 (mPi - args.angleMin)) := by
  rcases h.lt_or_eq with hlt | heq
  · have hreversed : args.reversed = true := decide_eq_true hlt
    simp only [publishScan, hreversed, if_true, and_self]
  · simp only [publishScan, heq, ite_self, and_self]

theorem getLast?_readings (nodes : Vector HqNode n) :
    (readings nodes).getLast? = (lastValid nodes).map nodes.get := by
  rw [readings, List.getLast?_filter, toList_eq_map, ← List.map_reverse, List.find?_map]
  rfl

/-- Without half a turn more the distances of a message are those of the nodes, in their order or
backwards. -/
theorem toList_ranges (args : ScanArgs) (hflip : args.flipXAxis = false) (nodes : Vector HqNode n) :
    (publishScan args nodes).ranges.toList =
      (if args.reverseData then nodes.toList.reverse else nodes.toList).map HqNode.range := by
  have happlied := publishScan_ranges args nodes (Or.inl hflip)
  cases hreverse : args.reverseData
  · apply List.ext_getElem
    · simp
    · intro k hk _
      rw [Vector.length_toList] at hk
      have hrange := happlied ⟨k, hk⟩
      have hself : applyIndex false false (⟨k, hk⟩ : Fin n) = ⟨k, hk⟩ := rfl
      simp only [hreverse, hflip, hself] at hrange
      simpa using hrange
  · apply List.ext_getElem
    · simp
    · intro k hk _
      rw [Vector.length_toList] at hk
      have hrange := happlied ⟨n - 1 - k, by omega⟩
      have hback : applyIndex true false (⟨n - 1 - k, by omega⟩ : Fin n) = ⟨k, hk⟩ := by
        ext
        simp only [applyIndex, mirror, if_true, Bool.false_eq_true, if_false]
        omega
      simp only [hreverse, hflip, hback] at hrange
      simpa using hrange

theorem filter_ranges (nodes : List HqNode) :
    (nodes.map HqNode.range).filter (·.IsFinite) = (nodes.filter (·.IsValid)).map HqNode.range := by
  rw [List.filter_map]
  congr 1
  apply List.filter_congr
  intro node _
  by_cases hvalid : node.IsValid
  · simp [hvalid, HqNode.range_of_isValid hvalid, ExtRat.IsFinite]
  · simp [hvalid, HqNode.range_of_not_isValid hvalid, ExtRat.IsFinite]

/-- Without angle compensation every scan with a reading is published from the first reading to the
last one, with the nodes without a reading between them, in ascending order, or in descending order
if the data is reversed; the finite distances are those of all readings. -/
theorem uncompensated_beams {p : NodeParams} (hcompensate : p.angleCompensate = false)
    (hflip : p.flipXAxis = false) {sort : Vector HqNode n → Vector HqNode n}
    (hsort : SortsByAngle sort) (hn : n ≤ 2 ^ 24) {nodes : Vector HqNode n} (hfit : AnglesFit nodes)
    (hreading : readings nodes ≠ []) (start scanDuration : ℚ) :
    ∃ ascending before scan behind lo hi m, ∃ message : LaserScan m,
      ascendScanData sort nodes = some (.ok, ascending) ∧
      ascending.toList = before ++ scan ++ behind ∧
      (∀ node ∈ before ++ behind, ¬ node.IsValid) ∧
      scan.head? = some lo ∧ lo.IsValid ∧ scan.getLast? = some hi ∧ hi.IsValid ∧
      publishGrabbed p sort start scanDuration nodes = some ⟨m, message⟩ ∧
      m = scan.length ∧
      message.angleMin = f32 (f64 (mPi - deg2rad hi.getAngle)) ∧
      message.angleMax = f32 (f64 (mPi - deg2rad lo.getAngle)) ∧
      message.ranges.toList =
        (if (p.args start scanDuration (deg2rad lo.getAngle) (deg2rad hi.getAngle)).reverseData then
          scan.reverse else scan).map HqNode.range ∧
      message.ranges.toList.filter (·.IsFinite) =
        (if (p.args start scanDuration (deg2rad lo.getAngle) (deg2rad hi.getAngle)).reverseData then
          (readings ascending).reverse else readings ascending).map HqNode.range := by
  obtain ⟨ascending, hascend, _, hsorted, hperm⟩ := exists_ascending hsort hn hfit hreading
  have hsome : readings ascending ≠ [] := fun hnil ↦ hreading (hnil ▸ hperm).symm.eq_nil
  cases hs : firstValid ascending with
  | none => exact absurd (firstValid_eq_none.mp hs) hsome
  | some s =>
    cases he : lastValid ascending with
    | none =>
      have hlast := getLast?_readings ascending
      rw [he, Option.map_none, List.getLast?_eq_none_iff] at hlast
      exact absurd hlast hsome
    | some e =>
      obtain ⟨before, behind, hparts, hnone, hhead, hlast⟩ := exists_parts hs he
      have hlo := (firstValid_eq_some hs).1
      have hhi := (lastValid_eq_some he).1
      have hse : s.val ≤ e := (lastValid_eq_some he).2 s s.isLt hlo
      have hangles := hsorted s e s.isLt e.isLt (Nat.zero_le _) hse e.isLt
      rw [Vector.getElem_map, Vector.getElem_map] at hangles
      have hranges := toList_ranges (p.args start scanDuration
        (deg2rad (ascending.get s).getAngle) (deg2rad (ascending.get e).getAngle)) hflip
        (ascending.extract s (e + 1))
      obtain ⟨hmin, hmax⟩ := publishScan_angles (p.args start scanDuration
        (deg2rad (ascending.get s).getAngle) (deg2rad (ascending.get e).getAngle))
        (deg2rad_mono hangles) (ascending.extract s (e + 1))
      refine ⟨ascending, before, (ascending.extract s (e + 1)).toList, behind, ascending.get s,
        ascending.get e, _, publishScan (p.args start scanDuration
          (deg2rad (ascending.get s).getAngle) (deg2rad (ascending.get e).getAngle))
          (ascending.extract s (e + 1)), hascend, hparts, hnone, hhead, hlo, hlast, hhi, ?_,
        Vector.length_toList.symm, hmin, hmax, hranges, ?_⟩
      · simp only [publishGrabbed, hascend, hcompensate, publishReadings, hs, he,
          Option.bind_eq_bind, Option.bind_some]
        rfl
      · rw [hranges, filter_ranges]
        split
        · rw [List.filter_reverse, filter_parts hparts hnone, readings]
        · rw [filter_parts hparts hnone, readings]

theorem uncompensated_beams_twoReadings :
    ∃ ascending before scan behind lo hi m, ∃ message : LaserScan m,
      ascendScanData sortByAngle twoReadings = some (.ok, ascending) ∧
      ascending.toList = before ++ scan ++ behind ∧
      (∀ node ∈ before ++ behind, ¬ node.IsValid) ∧
      scan.head? = some lo ∧ lo.IsValid ∧ scan.getLast? = some hi ∧ hi.IsValid ∧
      publishGrabbed { launchParams with angleCompensate := false } sortByAngle 0 1 twoReadings =
        some ⟨m, message⟩ ∧
      m = scan.length ∧
      message.angleMin = f32 (f64 (mPi - deg2rad hi.getAngle)) ∧
      message.angleMax = f32 (f64 (mPi - deg2rad lo.getAngle)) ∧
      message.ranges.toList =
        (if (launchParams.args 0 1 (deg2rad lo.getAngle) (deg2rad hi.getAngle)).reverseData then
          scan.reverse else scan).map HqNode.range ∧
      message.ranges.toList.filter (·.IsFinite) =
        (if (launchParams.args 0 1 (deg2rad lo.getAngle) (deg2rad hi.getAngle)).reverseData then
          (readings ascending).reverse else readings ascending).map HqNode.range :=
  uncompensated_beams (p := { launchParams with angleCompensate := false }) rfl rfl
    sortsByAngle_sortByAngle (by decide) (by decide) (by decide) 0 1

end MonitoringRobot.Lidar
