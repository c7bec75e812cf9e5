import Mathlib.Algebra.Order.Floor.Ring
import Mathlib.Data.List.Induction
import Mathlib.Data.Rat.Floor
import Mathlib.Tactic.Linarith
import MonitoringRobot.Base.Rounding
import MonitoringRobot.Matcher.Quicksort

/-!
# Discarding correspondences

Before a pose is estimated, the scan matcher throws correspondences away
(`edge_packages/src/laser_scan_matcher/csm/src/icp/icp_outliers.cpp:38-167`):
`kill_outliers_double` looks at those that share a ray of the reference scan, and
`kill_outliers_trim` cuts the ones with the greatest distances. An invalid correspondence has no
fields, which nothing reads. Distances are rational numbers; the products and the sum of the
trimming are rounded as `double`s, the product with the threshold of the first one is exact.
-/

namespace MonitoringRobot.Matcher
open MonitoringRobot.Base

/-- A valid `correspondence` of a ray with two rays of a reference scan of `m` rays. -/
structure Correspondence (m : Nat) where
  j1 : Fin m
  j2 : Fin m
  dist2J1 : ℚ
deriving DecidableEq, Repr

variable {m nrays : Nat}

/-! ### Correspondences that share a ray -/

/-- `dist2_j` behind the first loop: the least squared distance for each ray of the reference
scan, and a million where there is none. -/
def dist2J (corr : List (Option (Correspondence m))) : Vector ℚ m :=
  corr.foldl (fun dist2 c ↦
    match c with
    | none => dist2
    | some c => dist2.set c.j1 (min dist2[c.j1] c.dist2J1)) (Vector.replicate m 1000000)

/-- `kill_outliers_double`. -/
def killOutliersDouble (corr : List (Option (Correspondence m))) :
    List (Option (Correspondence m)) :=
  let threshold : ℚ := 3
  corr.map fun c ↦ c.filter fun c ↦ ¬ c.dist2J1 > threshold * threshold * (dist2J corr)[c.j1]

theorem le_dist2J {corr : List (Option (Correspondence m))} {j : Fin m} {d : ℚ} :
    d ≤ (dist2J corr)[j] ↔
      d ≤ 1000000 ∧ ∀ c, some c ∈ corr → c.j1 = j → d ≤ c.dist2J1 := by
  induction corr using List.reverseRecOn with
  | nil => simp [dist2J]
  | append_singleton corr c ih =>
    cases c with
    | none =>
      have hsame : dist2J (corr ++ [none]) = dist2J corr := by
        rw [dist2J, List.foldl_append]
        rfl
      rw [hsame, ih]
      simp
    | some c =>
      have hset : dist2J (corr ++ [some c]) =
          (dist2J corr).set c.j1 (min (dist2J corr)[c.j1] c.dist2J1) := by
        rw [dist2J, List.foldl_append]
        rfl
      have hmem : (∀ c', some c' ∈ corr ++ [some c] → c'.j1 = j → d ≤ c'.dist2J1) ↔
          (∀ c', some c' ∈ corr → c'.j1 = j → d ≤ c'.dist2J1) ∧ (c.j1 = j → d ≤ c.dist2J1) := by
        constructor
        · intro h
          exact ⟨fun c' hc ↦ h c' (List.mem_append_left _ hc), h c (by simp)⟩
        · intro h c' hc hj
          cases List.mem_append.mp hc with
          | inl hc => exact h.1 c' hc hj
          | inr hc =>
            have heq := Option.some.inj (List.mem_singleton.mp hc)
            subst heq
            exact h.2 hj
      rw [hset, hmem, ← and_assoc, ← ih]
      by_cases heq : c.j1 = j
      · subst heq
        have hget : ((dist2J corr).set c.j1 (min (dist2J corr)[c.j1] c.dist2J1))[c.j1] =
            min (dist2J corr)[c.j1] c.dist2J1 := Vector.getElem_set_self _
        rw [hget, le_min_iff]
        simp
      · have hget : ((dist2J corr).set c.j1 (min (dist2J corr)[c.j1] c.dist2J1))[j] =
            (dist2J corr)[j] := Vector.getElem_set_ne _ _ (fun h ↦ heq (Fin.ext h))
        rw [hget]
        simp [heq]

theorem not_gt_dist2J {corr : List (Option (Correspondence m))} {c : Correspondence m} :
    ¬ c.dist2J1 > 3 * 3 * (dist2J corr)[c.j1] ↔
      c.dist2J1 ≤ 9 * 1000000 ∧
        ∀ c', some c' ∈ corr → c'.j1 = c.j1 → c.dist2J1 ≤ 9 * c'.dist2J1 := by
  have hscale : ∀ d : ℚ, c.dist2J1 ≤ 9 * d ↔ c.dist2J1 / 9 ≤ d := by
    intro d
    rw [div_le_iff₀ (by norm_num), mul_comm]
  simp only [hscale]
  rw [← le_dist2J, ← hscale, not_lt]
  norm_num

/-- A correspondence survives when it is not more than three times as far as any other one of
its ray, and not more than three thousand away. -/
theorem mem_killOutliersDouble {corr : List (Option (Correspondence m))}
    {c : Correspondence m} : some c ∈ killOutliersDouble corr ↔
      some c ∈ corr ∧ c.dist2J1 ≤ 9 * 1000000 ∧
        ∀ c', some c' ∈ corr → c'.j1 = c.j1 → c.dist2J1 ≤ 9 * c'.dist2J1 := by
  rw [killOutliersDouble, ← not_gt_dist2J]
  simp only [List.mem_map, Option.filter_eq_some_iff, decide_eq_true_eq]
  constructor
  · rintro ⟨c', hc', rfl, hkeep⟩
    exact ⟨hc', hkeep⟩
  · rintro ⟨hc, hkeep⟩
    exact ⟨some c, hc, rfl, hkeep⟩

theorem killOutliersDouble_idem (corr : List (Option (Correspondence m))) :
    killOutliersDouble (killOutliersDouble corr) = killOutliersDouble corr := by
  rw [killOutliersDouble]
  refine (List.map_congr_left ?_).trans (List.map_id _)
  intro x hx
  cases x with
  | none => rfl
  | some c =>
    obtain ⟨hc, hbound, hother⟩ := mem_killOutliersDouble.mp hx
    have hkeep : ¬ c.dist2J1 > 3 * 3 * (dist2J (killOutliersDouble corr))[c.j1] :=
      not_gt_dist2J.mpr ⟨hbound, fun c' hc' hj ↦ hother c' (mem_killOutliersDouble.mp hc').1 hj⟩
    rw [id, Option.filter_some, if_pos (decide_eq_true hkeep)]

/-- Two correspondences of one ray, of which the farther one is killed, and one of another ray. -/
def sharedRay : List (Option (Correspondence 4)) :=
  [some { j1 := ⟨1, by decide⟩, j2 := ⟨2, by decide⟩, dist2J1 := 1 }, none,
    some { j1 := ⟨1, by decide⟩, j2 := ⟨0, by decide⟩, dist2J1 := 10 },
    some { j1 := ⟨2, by decide⟩, j2 := ⟨3, by decide⟩, dist2J1 := 100 }]

example : killOutliersDouble sharedRay =
    [some { j1 := ⟨1, by decide⟩, j2 := ⟨2, by decide⟩, dist2J1 := 1 }, none, none,
      some { j1 := ⟨2, by decide⟩, j2 := ⟨3, by decide⟩, dist2J1 := 100 }] := by decide +kernel

/-! ### Trimming -/

/-- The parameters of the trimming. -/
structure TrimParams where
  outliersMaxPerc : ℚ
  outliersAdaptiveOrder : ℚ
  outliersAdaptiveMult : ℚ
deriving DecidableEq, Repr

/-- A position among `k` sorted distances. -/
def order (k : Nat) (perc : ℚ) : Nat := (max 0 (min ⌊f64 (k * perc)⌋ ((k : Int) - 1))).toNat

-- seven tenths are rounded down, and seven tenths of ten are not
example : order 10 (f64 (7 / 10)) = 7 := by decide +kernel

/-- The distances of the valid correspondences. The distance of a ray from the segment it
corresponds to comes from elsewhere. -/
def distances (distToSegment : Nat → Correspondence m → ℚ)
    (corr : Vector (Option (Correspondence m)) nrays) : List ℚ :=
  corr.toList.zipIdx.filterMap fun (c, i) ↦ c.map (distToSegment i)

/-- `dist2`: the distances, and zeros behind them. -/
def dist2 (dists : List ℚ) (nrays : Nat) : Vector ℚ nrays := .ofFn fun i ↦ dists.getD i 0

/-- `error_limit`. There is none when there are no rays. -/
def errorLimit (params : TrimParams) (dists : List ℚ) (nrays : Nat) : Option ℚ := do
  let k := dists.length
  let sorted ← quicksort (2 * k + 2) (dist2 dists nrays) 0 (k - 1)
  let errorLimit1 ← sorted[order k params.outliersMaxPerc]?
  let atOrder2 ← sorted[order k params.outliersAdaptiveOrder]?
  pure (min errorLimit1 (f64 (params.outliersAdaptiveMult * atOrder2)))

/-- The last loop of `kill_outliers_trim`. -/
def cutAt (limit : ℚ) (distToSegment : Nat → Correspondence m → ℚ)
    (corr : Vector (Option (Correspondence m)) nrays) :
    Vector (Option (Correspondence m)) nrays :=
  corr.mapIdx fun i c ↦ c.filter fun c ↦ ¬ distToSegment i c > limit

/-- `total_error`. -/
def totalError (dists : List ℚ) : ℚ := dists.foldl (fun total dist ↦ f64 (total + dist)) 0

/-- `kill_outliers_trim`, with the total error. -/
def killOutliersTrim (params : TrimParams) (distToSegment : Nat → Correspondence m → ℚ)
    (corr : Vector (Option (Correspondence m)) nrays) :
    Option (Vector (Option (Correspondence m)) nrays × ℚ) := do
  let limit ← errorLimit params (distances distToSegment corr) nrays
  let kept := cutAt limit distToSegment corr
  pure (kept, totalError (distances distToSegment kept))

/-- A position is one of the distances, or the first one when there are none. -/
theorem order_lt (k : Nat) (perc : ℚ) : order k perc < max 1 k := by
  unfold order
  omega

/-- It is at most the wanted share. -/
theorem order_le {k : Nat} {perc : ℚ} (h : 0 ≤ perc) : (order k perc : ℚ) ≤ f64 (k * perc) := by
  have hfloor : 0 ≤ ⌊f64 (k * perc)⌋ := Int.floor_nonneg.mpr (f64_nonneg (by positivity))
  have hle : (order k perc : Int) ≤ ⌊f64 (k * perc)⌋ := by
    unfold order
    omega
  calc (order k perc : ℚ) = ((order k perc : Int) : ℚ) := rfl
    _ ≤ (⌊f64 (k * perc)⌋ : ℚ) := by exact_mod_cast hle
    _ ≤ f64 (k * perc) := Int.floor_le _

theorem order_of_one_le {k : Nat} (hk : k < 2 ^ 53) {perc : ℚ} (h : 1 ≤ perc) :
    order k perc = k - 1 := by
  have hexact : f64 k = k := roundTo_natCast hk
  have hle : (k : Int) ≤ ⌊f64 (k * perc)⌋ := by
    rw [Int.le_floor, Int.cast_natCast]
    calc (k : ℚ) = f64 k := hexact.symm
      _ ≤ f64 (k * perc) := f64_mono (le_mul_of_one_le_right (Nat.cast_nonneg k) h)
  unfold order
  omega

theorem take_dist2 {dists : List ℚ} (hlen : dists.length ≤ nrays) :
    (dist2 dists nrays).toList.take dists.length = dists := by
  apply List.ext_getElem
  · rw [List.length_take, Vector.length_toList, Nat.min_eq_left hlen]
  · intro i hi hi'
    rw [List.getElem_take, Vector.getElem_toList]
    simp [dist2, hi']

theorem errorLimit_spec (params : TrimParams) {dists : List ℚ} (hlen : dists.length ≤ nrays)
    (hpos : 0 < nrays) : ∃ sorted : Vector ℚ nrays,
      (sorted.toList.take dists.length).Perm dists ∧ SortedOn 0 dists.length sorted ∧
      ∃ (h1 : order dists.length params.outliersMaxPerc < nrays)
        (h2 : order dists.length params.outliersAdaptiveOrder < nrays),
        errorLimit params dists nrays =
          some (min sorted[order dists.length params.outliersMaxPerc]
            (f64 (params.outliersAdaptiveMult *
              sorted[order dists.length params.outliersAdaptiveOrder]))) := by
  have horder : ∀ perc, order dists.length perc < nrays := by
    intro perc
    have hlt := order_lt dists.length perc
    omega
  have h1 := horder params.outliersMaxPerc
  have h2 := horder params.outliersAdaptiveOrder
  have hcalls : calls (dist2 dists nrays) 0 (dists.length - 1) < 2 * dists.length + 2 := by
    have hle := calls_le (dist2 dists nrays) 0 (dists.length - 1)
    omega
  obtain ⟨sorted, hcall, hmoved, hsorted⟩ :=
    quicksort_spec (dist2 dists nrays) (by omega) hcalls
  have hlimit : errorLimit params dists nrays =
      some (min sorted[order dists.length params.outliersMaxPerc]
        (f64 (params.outliersAdaptiveMult *
          sorted[order dists.length params.outliersAdaptiveOrder]))) := by
    simp [errorLimit, hcall, horder]
  by_cases hnone : dists.length = 0
  · refine ⟨sorted, ?_, sortedOn_of_le (by omega) sorted, h1, h2, hlimit⟩
    rw [List.length_eq_zero_iff.mp hnone, List.length_nil, List.take_zero]
  · rw [Nat.sub_add_cancel (by omega)] at hmoved hsorted
    refine ⟨sorted, ?_, hsorted, h1, h2, hlimit⟩
    exact hmoved.take_perm.trans (.of_eq (take_dist2 hlen))

/-- Discarding what is beyond a limit discards it from the distances. -/
theorem distances_filter (distToSegment : Nat → Correspondence m → ℚ)
    (corr : Vector (Option (Correspondence m)) nrays) (limit : ℚ) :
    distances distToSegment (cutAt limit distToSegment corr) =
      (distances distToSegment corr).filter (· ≤ limit) := by
  have hlist : ∀ (l : List (Option (Correspondence m))) (k : Nat),
      ((l.mapIdx fun i c ↦ c.filter fun c ↦ ¬ distToSegment (i + k) c > limit).zipIdx
        k).filterMap (fun (c, i) ↦ c.map (distToSegment i)) =
      ((l.zipIdx k).filterMap fun (c, i) ↦ c.map (distToSegment i)).filter (· ≤ limit) := by
    intro l
    induction l with
    | nil => exact fun _ ↦ rfl
    | cons c l ih =>
      intro k
      have hnext : ∀ i, i + 1 + k = i + (k + 1) := by omega
      rw [List.mapIdx_cons, List.zipIdx_cons, List.zipIdx_cons, List.filterMap_cons,
        List.filterMap_cons]
      simp only [hnext, ih (k + 1), Nat.zero_add]
      cases c with
      | none => rfl
      | some c =>
        by_cases hle : distToSegment k c ≤ limit
        · simp [Option.filter_some, hle]
        · simp [Option.filter_some, hle]
  have hzero := hlist corr.toList 0
  rw [distances, distances, cutAt, Vector.toList_mapIdx]
  exact hzero

theorem length_distances_le (distToSegment : Nat → Correspondence m → ℚ)
    (corr : Vector (Option (Correspondence m)) nrays) :
    (distances distToSegment corr).length ≤ nrays := by
  have hle := List.length_filterMap_le
    (fun (x : Option (Correspondence m) × Nat) ↦ x.1.map (distToSegment x.2)) corr.toList.zipIdx
  rwa [List.length_zipIdx, Vector.length_toList] at hle

/-- The correspondence of a ray has its distance among them. -/
theorem mem_distances {distToSegment : Nat → Correspondence m → ℚ}
    {corr : Vector (Option (Correspondence m)) nrays} {i : Nat} (hi : i < nrays)
    {c : Correspondence m} (hc : corr[i] = some c) :
    distToSegment i c ∈ distances distToSegment corr := by
  refine List.mem_filterMap.mpr ⟨(some c, i), ?_, rfl⟩
  rw [List.mem_zipIdx_iff_getElem?, ← hc, Vector.getElem?_toList]
  exact Vector.getElem?_eq_getElem hi

/-- What the limit cuts off, in numbers: at most the wanted share of the distances is strictly
below it, and it spares more than the smaller of the two orders. -/
theorem errorLimit_bounds {params : TrimParams} {dists : List ℚ} (hlen : dists.length ≤ nrays)
    (hpos : 0 < nrays) (hmult : 1 ≤ params.outliersAdaptiveMult)
    (hdists : ∀ d ∈ dists, 0 ≤ d ∧ f64 d = d) :
    ∃ limit, errorLimit params dists nrays = some limit ∧
      dists.countP (· < limit) ≤ order dists.length params.outliersMaxPerc ∧
      (dists ≠ [] → min (order dists.length params.outliersMaxPerc)
        (order dists.length params.outliersAdaptiveOrder) < dists.countP (· ≤ limit)) := by
  obtain ⟨sorted, hperm, hsorted, h1, h2, hlimit⟩ := errorLimit_spec params hlen hpos
  refine ⟨_, hlimit, ?_, ?_⟩
  · have hmono : dists.countP (· < min sorted[order dists.length params.outliersMaxPerc]
        (f64 (params.outliersAdaptiveMult *
          sorted[order dists.length params.outliersAdaptiveOrder]))) ≤
        dists.countP (· < sorted[order dists.length params.outliersMaxPerc]) := by
      apply List.countP_mono_left
      intro d _ hd
      rw [decide_eq_true_eq] at hd ⊢
      exact lt_of_lt_of_le hd (min_le_left ..)
    have hlt := hsorted.countP_lt_le h1
    rw [hperm.countP_eq] at hlt
    exact hmono.trans hlt
  · intro hne
    have hk : 0 < dists.length := List.length_pos_iff.mpr hne
    have hlt1 := order_lt dists.length params.outliersMaxPerc
    have hlt2 := order_lt dists.length params.outliersAdaptiveOrder
    generalize order dists.length params.outliersMaxPerc = o1 at *
    generalize order dists.length params.outliersAdaptiveOrder = o2 at *
    have hmin : min o1 o2 < nrays := by omega
    have hcount := hsorted.lt_countP_le (by omega : min o1 o2 < dists.length) hmin
    rw [hperm.countP_eq] at hcount
    refine lt_of_lt_of_le hcount ?_
    apply List.countP_mono_left
    intro d _ hd
    rw [decide_eq_true_eq] at hd ⊢
    have hle1 : sorted[min o1 o2] ≤ sorted[o1] :=
      hsorted _ _ hmin h1 (Nat.zero_le _) (min_le_left ..) (by omega)
    have hle2 : sorted[min o1 o2] ≤ sorted[o2] :=
      hsorted _ _ hmin h2 (Nat.zero_le _) (min_le_right ..) (by omega)
    have hdist : 0 ≤ sorted[o2] ∧ f64 sorted[o2] = sorted[o2] := by
      apply hdists
      rw [← hperm.mem_iff, List.mem_iff_getElem]
      exact ⟨o2, by simp; omega, by simp⟩
    have hscaled : sorted[o2] ≤ f64 (params.outliersAdaptiveMult * sorted[o2]) :=
      hdist.2.symm.trans_le (f64_mono (le_mul_of_one_le_left hdist.1 hmult))
    exact hd.trans (le_min hle1 (hle2.trans hscaled))

/-- Trimming keeps the correspondences up to a limit, whose distances it adds up. As long as
the limit is not scaled down, it is never too strict: some correspondences are left if there
were any, and all of them if both shares are whole. It is never too generous: those strictly
within the limit are not more than the wanted share, as `double`s give it. The number of rays is
an `int`. -/
theorem trimmed (params : TrimParams) (hperc : 0 ≤ params.outliersMaxPerc)
    (hmult : 1 ≤ params.outliersAdaptiveMult) {distToSegment : Nat → Correspondence m → ℚ}
    (hdist : ∀ i c, 0 ≤ distToSegment i c ∧ f64 (distToSegment i c) = distToSegment i c)
    (hpos : 0 < nrays) (hint : nrays < 2 ^ 31)
    (corr : Vector (Option (Correspondence m)) nrays) :
    ∃ kept limit, killOutliersTrim params distToSegment corr =
        some (kept, totalError (distances distToSegment kept)) ∧
      (∀ i (hi : i < nrays), kept[i] = corr[i].filter fun c ↦ distToSegment i c ≤ limit) ∧
      ((distances distToSegment kept).countP (· < limit) : ℚ) ≤
        f64 ((distances distToSegment corr).length * params.outliersMaxPerc) ∧
      (distances distToSegment corr ≠ [] → distances distToSegment kept ≠ []) ∧
      (1 ≤ params.outliersMaxPerc → 1 ≤ params.outliersAdaptiveOrder → kept = corr) := by
  have hdists : ∀ d ∈ distances distToSegment corr, 0 ≤ d ∧ f64 d = d := by
    intro d hd
    obtain ⟨x, -, hx⟩ := List.mem_filterMap.mp hd
    obtain ⟨c, -, rfl⟩ := Option.map_eq_some_iff.mp hx
    exact hdist _ _
  obtain ⟨limit, hlimit, hlt, hle⟩ := errorLimit_bounds
    (length_distances_le distToSegment corr) hpos hmult hdists
  have hkept := distances_filter distToSegment corr limit
  refine ⟨cutAt limit distToSegment corr, limit, ?_, ?_, ?_, ?_, ?_⟩
  · simp only [killOutliersTrim, hlimit]
    rfl
  · intro i hi
    simp [cutAt]
  · rw [hkept]
    have hcount : ((distances distToSegment corr).filter (· ≤ limit)).countP (· < limit) ≤
        (distances distToSegment corr).countP (· < limit) :=
      List.filter_sublist.countP_le
    calc _ ≤ (order (distances distToSegment corr).length params.outliersMaxPerc : ℚ) := by
          exact_mod_cast hcount.trans hlt
      _ ≤ _ := order_le hperc
  · intro hne hempty
    have hmany := hle hne
    rw [hkept] at hempty
    rw [List.countP_eq_length_filter, hempty] at hmany
    exact absurd hmany (Nat.not_lt_zero _)
  · intro hone hone'
    apply Vector.ext
    intro i hi
    rw [cutAt, Vector.getElem_mapIdx]
    cases hc : corr[i] with
    | none => rfl
    | some c =>
      have hmem : distToSegment i c ∈ distances distToSegment corr := mem_distances hi hc
      have hmany := hle (List.ne_nil_of_mem hmem)
      have hlength := length_distances_le distToSegment corr
      have hk : (distances distToSegment corr).length < 2 ^ 53 := by omega
      rw [order_of_one_le hk hone, order_of_one_le hk hone', min_self] at hmany
      have hall : (distances distToSegment corr).countP (· ≤ limit) =
          (distances distToSegment corr).length := by
        have hcount : (distances distToSegment corr).countP (· ≤ limit) ≤
            (distances distToSegment corr).length := List.countP_le_length
        omega
      have hin := List.countP_eq_length.mp hall _ hmem
      rw [decide_eq_true_eq] at hin
      rw [Option.filter_some, if_pos (decide_eq_true (not_lt.mpr hin))]

/-- Four rays, one of them without a correspondence and one far from its segment. -/
def fourRays : Vector (Option (Correspondence 4)) 4 :=
  #v[some { j1 := ⟨1, by decide⟩, j2 := ⟨2, by decide⟩, dist2J1 := 1 }, none,
    some { j1 := ⟨2, by decide⟩, j2 := ⟨3, by decide⟩, dist2J1 := 2 },
    some { j1 := ⟨3, by decide⟩, j2 := ⟨2, by decide⟩, dist2J1 := 10 }]

/-- A distance for each ray. -/
def someDistance (i : Nat) (_ : Correspondence 4) : ℚ :=
  if i = 0 then 1 else if i = 2 then 4 else 100

/-- Twice the distance in the middle. -/
def twiceTheMiddle : TrimParams where
  outliersMaxPerc := f64 (9 / 10)
  outliersAdaptiveOrder := 1 / 2
  outliersAdaptiveMult := 2

/-- The far correspondence is discarded. -/
theorem trimmed_four :
    (killOutliersTrim twiceTheMiddle someDistance fourRays).map (·.2) = some 5 ∧
    ∃ kept limit, killOutliersTrim twiceTheMiddle someDistance fourRays =
        some (kept, totalError (distances someDistance kept)) ∧
      (∀ i (hi : i < 4), kept[i] = fourRays[i].filter fun c ↦ someDistance i c ≤ limit) ∧
      ((distances someDistance kept).countP (· < limit) : ℚ) ≤
        f64 ((distances someDistance fourRays).length * twiceTheMiddle.outliersMaxPerc) ∧
      (distances someDistance fourRays ≠ [] → distances someDistance kept ≠ []) ∧
      (1 ≤ twiceTheMiddle.outliersMaxPerc → 1 ≤ twiceTheMiddle.outliersAdaptiveOrder →
        kept = fourRays) := by
  have hdist : ∀ i c, 0 ≤ someDistance i c ∧ f64 (someDistance i c) = someDistance i c := by
    intro i c
    unfold someDistance
    split_ifs <;> decide +kernel
  refine ⟨by decide +kernel, ?_⟩
  exact trimmed twiceTheMiddle (by decide +kernel) (by decide +kernel) hdist (by decide)
    (by decide) fourRays

end MonitoringRobot.Matcher
