import Mathlib.Data.Fin.VecNotation
import Mathlib.Data.List.TakeWhile
import Mathlib.Data.Rat.Defs
import Mathlib.Logic.Function.Basic
import MonitoringRobot.Base.Decimal
import MonitoringRobot.Base.Text

/-!
# Reading signal levels out of a scan

The two copies of `get_rssi_data` (`edge_packages/src/rssi/rssi/data_zone_serv.py:71-97`,
`edge_packages/src/rssi/rssi/rssi_logger.py:36-50`) share one parser: a split at `"Cell "`
and two independent leftmost searches in each piece, the later piece winning. They differ in
the third target, in the number type of a level, and in the default. A scan is the decoded
output of `iwlist`, or nothing when the call raised. Levels are exact numbers; the limit
CPython sets on the digits `int` reads is left out.
-/

namespace MonitoringRobot.Rssi
open MonitoringRobot.Base

/-- One value for each of the four access points. -/
abbrev PerAp (α : Type) := Fin 4 → α

/-- How `re.I` compares with the letters of `Address`: the two cases are one, and the long s
folds to s. -/
def foldCase (c : Char) : Char := if c = 'ſ' then 's' else c.toLower

/-- `[\dA-F:]` under `re.I`. -/
def isMacChar (c : Char) : Bool :=
  isDecimal c || c == ':' || ('A' ≤ c && c ≤ 'F') || ('a' ≤ c && c ≤ 'f')

/-- The separator of the cells. -/
def cellMarker : Text := "Cell ".toList

/-- The literal of the first pattern, folded. -/
def addressMarker : Text := "address: ".toList

/-- The literal of the second pattern. -/
def levelMarker : Text := "Signal level=".toList

/-- The end of the second pattern. -/
def levelUnit : Text := " dBm".toList

/-- `Address: ([\dA-F:]{17})` under `re.I`, matched at the front: the group. -/
def matchMac? (t : Text) : Option Text :=
  if addressMarker.isPrefixOf (t.map foldCase) then
    let mac := (t.drop addressMarker.length).take 17
    if mac.length = 17 ∧ mac.all isMacChar then some mac else none
  else none

/-- `(\d+) dBm`, matched at the front: the group. A greedy run of digits leaves the blank that
must follow, so that no shorter run ever matches. -/
def matchDigits? (t : Text) : Option Text :=
  let digits := t.takeWhile isDecimal
  if digits ≠ [] ∧ levelUnit.isPrefixOf (t.drop digits.length) then some digits else none

/-- `(-?\d+) dBm`, matched at the front: the group. -/
def matchNumber? : Text → Option Text
  | '-' :: t => (matchDigits? t).map (List.cons '-')
  | t => matchDigits? t

/-- `Signal level=(-?\d+) dBm`, matched at the front: the group. -/
def matchLevel? (t : Text) : Option Text :=
  if levelMarker.isPrefixOf t then matchNumber? (t.drop levelMarker.length) else none

/-- What the two searches find in one piece: `str.lower` of the address, and the digits of
the level. -/
def reading? (cell : Text) : Option (Text × Text) :=
  match search matchMac? cell, search matchLevel? cell with
  | some mac, some rssi => some (mac.map Char.toLower, rssi)
  | _, _ => none

/-- One pass of the loop over the cells. The dictionary holds a value for every target and
for nothing else, so that it is a function read at the targets only. -/
def record {α : Type} (targets : PerAp Text) (number : Text → α) (found : Text → α)
    (cell : Text) : Text → α :=
  match reading? cell with
  | some (mac, rssi) =>
    if ∃ i, targets i = mac then Function.update found mac (number rssi) else found
  | none => found

/-- `get_rssi_data`: the last level seen of each target, in target order. -/
def getRssiData {α : Type} (targets : PerAp Text) (default : α) (number : Text → α)
    (result : Option Text) : Option (PerAp α) :=
  result.map fun text ↦
    let found := (split cellMarker text).foldl (record targets number) fun _ ↦ default
    fun i ↦ found (targets i)

/-- `target_bssids` of the collector; `data_zone_serv.py:36-41`. -/
def RSSILogger.targetBssids : PerAp Text :=
  !["ea:b0:c5:11:92:25".toList, "f2:0b:9b:04:2f:7e".toList, "76:09:6d:d7:74:0f".toList,
    "8a:21:1a:1b:f8:8a".toList]

/-- `target_bssids` of the publisher; `rssi_logger.py:29-32`. -/
def RSSIPublisher.targetBssids : PerAp Text :=
  !["ea:b0:c5:11:92:25".toList, "f2:0b:9b:04:2f:7e".toList, "ce:ec:70:ba:27:7e".toList,
    "8a:21:1a:1b:f8:8a".toList]

/-- `RSSILogger.get_rssi_data`; `data_zone_serv.py:71-97`. -/
def RSSILogger.getRssiData (result : Option Text) : Option (PerAp ℤ) :=
  Rssi.getRssiData RSSILogger.targetBssids (-100) intOf result

/-- `RSSIPublisher.get_rssi_data`; `rssi_logger.py:36-50`. -/
def RSSIPublisher.getRssiData (result : Option Text) : Option (PerAp ℚ) :=
  Rssi.getRssiData RSSIPublisher.targetBssids (-100) (fun rssi ↦ (intOf rssi : ℚ)) result

/-- What a matched address consumes: the folded literal and seventeen class characters. -/
def MacText (w mac : Text) : Prop :=
  ∃ marker, w = marker ++ mac ∧ marker.map foldCase = addressMarker ∧ mac.length = 17 ∧
    ∀ c ∈ mac, isMacChar c = true

/-- What a matched level consumes: the literal, a sign and digits, and the unit. -/
def LevelText (w rssi : Text) : Prop :=
  w = levelMarker ++ (rssi ++ levelUnit) ∧ ∀ c ∈ rssi, c = '-' ∨ isDecimal c = true

theorem matchMac?_some {t mac : Text} (h : matchMac? t = some mac) :
    ∃ w, w <+: t ∧ MacText w mac := by
  unfold matchMac? at h
  split at h
  · next hp =>
    simp only at h
    split at h
    · next hmac =>
      rw [Option.some.injEq] at h
      rw [h, List.all_eq_true] at hmac
      have hmarker : (t.take addressMarker.length).map foldCase = addressMarker := by
        rw [List.map_take]
        exact (List.prefix_iff_eq_take.mp (List.isPrefixOf_iff_prefix.mp hp)).symm
      have hfront : t.take addressMarker.length ++ mac <+: t := by
        rw [← h, ← List.take_add]
        exact List.take_prefix _ _
      exact ⟨_, hfront, _, rfl, hmarker, hmac⟩
    · cases h
  · cases h

private theorem matchDigits?_some {t digits : Text} (h : matchDigits? t = some digits) :
    digits ++ levelUnit <+: t ∧ ∀ c ∈ digits, isDecimal c = true := by
  unfold matchDigits? at h
  simp only at h
  split at h
  · next hmatch =>
    rw [Option.some.injEq] at h
    rw [h] at hmatch
    have hd : digits <+: t := h ▸ List.takeWhile_prefix _
    constructor
    · rw [← List.prefix_iff_eq_append.mp hd, List.prefix_append_right_inj]
      exact List.isPrefixOf_iff_prefix.mp hmatch.2
    · intro c hc
      rw [← h] at hc
      exact List.mem_takeWhile_imp hc
  · cases h

private theorem matchNumber?_some {t rssi : Text} (h : matchNumber? t = some rssi) :
    rssi ++ levelUnit <+: t ∧ ∀ c ∈ rssi, c = '-' ∨ isDecimal c = true := by
  unfold matchNumber? at h
  split at h
  · next t =>
    obtain ⟨digits, hdigits, rfl⟩ := Option.map_eq_some_iff.mp h
    obtain ⟨hp, hd⟩ := matchDigits?_some hdigits
    constructor
    · rw [List.cons_append, List.prefix_cons_inj]
      exact hp
    · intro c hc
      rcases List.mem_cons.mp hc with hc | hc
      · exact .inl hc
      · exact .inr (hd c hc)
  · obtain ⟨hp, hd⟩ := matchDigits?_some h
    exact ⟨hp, fun c hc ↦ .inr (hd c hc)⟩

theorem matchLevel?_some {t rssi : Text} (h : matchLevel? t = some rssi) :
    ∃ w, w <+: t ∧ LevelText w rssi := by
  unfold matchLevel? at h
  split at h
  · next hp =>
    obtain ⟨u, rfl⟩ := List.isPrefixOf_iff_prefix.mp hp
    rw [List.drop_left] at h
    obtain ⟨hu, hchars⟩ := matchNumber?_some h
    exact ⟨_, (List.prefix_append_right_inj levelMarker).mpr hu, rfl, hchars⟩
  · cases h

/-- A match of the first pattern starts with its literal. -/
theorem addressMarker_of_match (t v : Text) (h : matchMac? t = some v) :
    addressMarker <+: t.map foldCase := by
  unfold matchMac? at h
  split at h
  · next hp => exact List.isPrefixOf_iff_prefix.mp hp
  · cases h

/-- A match of the second pattern starts with its literal. -/
theorem levelMarker_of_match (t v : Text) (h : matchLevel? t = some v) :
    levelMarker <+: t.map id := by
  unfold matchLevel? at h
  split at h
  · next hp =>
    rw [List.map_id]
    exact List.isPrefixOf_iff_prefix.mp hp
  · cases h

/-- The first literal as `iwlist` prints it. -/
def addressText : Text := "Address: ".toList

/-- The printed literal folds to the literal of the pattern. -/
theorem addressText_folded : addressText.map foldCase = addressMarker := by decide

theorem matchMac?_append {mac : Text} (hlen : mac.length = 17)
    (hmac : ∀ c ∈ mac, isMacChar c = true) (rest : Text) :
    matchMac? (addressText ++ (mac ++ rest)) = some mac := by
  have hp : addressMarker.isPrefixOf ((addressText ++ (mac ++ rest)).map foldCase) = true := by
    rw [List.isPrefixOf_iff_prefix, List.map_append, addressText_folded]
    exact List.prefix_append _ _
  have htake : ((addressText ++ (mac ++ rest)).drop addressMarker.length).take 17 = mac := by
    rw [← addressText_folded, List.length_map, List.drop_left, ← hlen, List.take_left]
  simp only [matchMac?, if_pos hp, htake, hlen, List.all_eq_true.mpr hmac, and_self, if_true]

private theorem matchDigits?_append {digits : Text} (hne : digits ≠ [])
    (h : ∀ c ∈ digits, c.isDigit = true) (rest : Text) :
    matchDigits? (digits ++ (levelUnit ++ rest)) = some digits := by
  have hrun : (digits ++ (levelUnit ++ rest)).takeWhile isDecimal = digits := by
    rw [List.takeWhile_append_of_pos fun c hc ↦ isDecimal_of_isDigit (h c hc)]
    have hblank : isDecimal ' ' = false := by decide
    simp [levelUnit, hblank]
  have hunit : levelUnit.isPrefixOf ((digits ++ (levelUnit ++ rest)).drop digits.length) = true := by
    rw [List.drop_left, List.isPrefixOf_iff_prefix]
    exact List.prefix_append _ _
  simp only [matchDigits?, hrun, if_pos (And.intro hne hunit)]

theorem matchNumber?_strInt (n : ℤ) (rest : Text) :
    matchNumber? (strInt n ++ (levelUnit ++ rest)) = some (strInt n) := by
  cases n with
  | ofNat n =>
    have hdigits : ∀ c ∈ Nat.toDigits 10 n, c.isDigit = true :=
      fun c hc ↦ isDigit_of_mem_toDigits hc
    have hmatch := matchDigits?_append Nat.toDigits_ne_nil hdigits rest
    change matchNumber? (Nat.toDigits 10 n ++ (levelUnit ++ rest)) = some (Nat.toDigits 10 n)
    unfold matchNumber?
    split
    · next t ht =>
      have hmem : '-' ∈ Nat.toDigits 10 n := by
        cases hd : Nat.toDigits 10 n with
        | nil => exact absurd hd Nat.toDigits_ne_nil
        | cons c ds =>
          rw [hd, List.cons_append, List.cons.injEq] at ht
          rw [ht.1]
          exact List.mem_cons_self
      exact absurd (hdigits '-' hmem) (by decide)
    · exact hmatch
  | negSucc n =>
    have hdigits : ∀ c ∈ Nat.toDigits 10 (n + 1), c.isDigit = true :=
      fun c hc ↦ isDigit_of_mem_toDigits hc
    have hmatch := matchDigits?_append Nat.toDigits_ne_nil hdigits rest
    simp only [strInt, List.cons_append, matchNumber?, hmatch, Option.map_some]

theorem matchLevel?_append (n : ℤ) (rest : Text) :
    matchLevel? (levelMarker ++ (strInt n ++ (levelUnit ++ rest))) = some (strInt n) := by
  have hp : levelMarker.isPrefixOf (levelMarker ++ (strInt n ++ (levelUnit ++ rest))) = true :=
    List.isPrefixOf_iff_prefix.mpr (List.prefix_append _ _)
  simp only [matchLevel?, if_pos hp, List.drop_left, matchNumber?_strInt]

/-- Everything read off a text, in order. -/
def readings (text : Text) : List (Text × Text) := (split cellMarker text).filterMap reading?

/-- The last level read for an address. -/
def lastLevel? (rs : List (Text × Text)) (mac : Text) : Option Text :=
  (rs.filter fun r ↦ r.1 = mac).getLast?.map Prod.snd

private theorem foldl_record {α : Type} (targets : PerAp Text) (number : Text → α)
    (i : Fin 4) (cells : List Text) (found : Text → α) :
    cells.foldl (record targets number) found (targets i) =
      ((lastLevel? (cells.filterMap reading?) (targets i)).map number).getD
        (found (targets i)) := by
  induction cells generalizing found with
  | nil => rfl
  | cons cell cells ih =>
    rw [List.foldl_cons, ih]
    cases hr : reading? cell with
    | none =>
      rw [List.filterMap_cons_none hr]
      simp only [record, hr]
    | some r =>
      obtain ⟨mac, rssi⟩ := r
      rw [List.filterMap_cons_some hr]
      by_cases hmac : mac = targets i
      · subst hmac
        have hin : ∃ j, targets j = targets i := ⟨i, rfl⟩
        simp only [record, hr, if_pos hin, Function.update_self, lastLevel?, List.filter_cons,
          decide_true, if_true, List.getLast?_cons]
        cases (List.filter (fun r ↦ decide (r.1 = targets i))
          (cells.filterMap reading?)).getLast? <;> rfl
      · have hother : record targets number found cell (targets i) = found (targets i) := by
          simp only [record, hr]
          split
          · exact Function.update_of_ne (Ne.symm hmac) _ _
          · rfl
        simp only [hother, lastLevel?, List.filter_cons, hmac, decide_false, Bool.false_eq_true,
          if_false]

/-- The value of a target is the last level read for it, or the default. -/
theorem getRssiData_eq {α : Type} (targets : PerAp Text) (default : α) (number : Text → α)
    (text : Text) : getRssiData targets default number (some text) =
      some fun i ↦ ((lastLevel? (readings text) (targets i)).map number).getD default := by
  rw [getRssiData, Option.map_some, Option.some.injEq]
  ext i
  exact foldl_record targets number i _ _

end MonitoringRobot.Rssi
