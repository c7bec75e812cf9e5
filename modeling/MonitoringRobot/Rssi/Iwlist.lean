import MonitoringRobot.Rssi.Scan

/-!
# What `iwlist` prints, and what is read from it

A scan is a preamble and a list of cells; a cell is a line with its number and address, a
line with its level, a line with its network name, and further lines. Only the name is free
text, chosen by whoever runs the network, and it may spell any of the three markers of the
parser (`edge_packages/src/rssi/rssi/data_zone_serv.py:83-95`,
`edge_packages/src/rssi/rssi/rssi_logger.py:40-47`). A name can open a piece of its own, but
the rest of a name of 32 characters is too short to hold both an address and a level: an
address has seventeen characters of its class, the level at least twelve outside it.
-/

namespace MonitoringRobot.Rssi
open MonitoringRobot.Base

/-- None of the three markers occurs; the second in no letter case. -/
structure MarkerFree (t : Text) : Prop where
  cell : ¬ cellMarker <:+: t
  address : ¬ addressMarker <:+: t.map foldCase
  level : ¬ levelMarker <:+: t

instance (t : Text) : Decidable (MarkerFree t) :=
  decidable_of_iff
    (¬ cellMarker <:+: t ∧ ¬ addressMarker <:+: t.map foldCase ∧ ¬ levelMarker <:+: t)
    ⟨fun h ↦ ⟨h.1, h.2.1, h.2.2⟩, fun h ↦ ⟨h.cell, h.address, h.level⟩⟩

/-- Text without any of the markers: a further line, or part of one. -/
structure Plain where
  text : Text
  free : MarkerFree text

/-- A network name. -/
structure Essid where
  text : Text
  short : text.length ≤ 32

/-- One cell of a scan. `indent` stands before the next cell on its line. -/
structure Cell where
  number : Text
  mac : Text
  beforeLevel : List Plain
  quality : Plain
  level : ℤ
  noise : Plain
  beforeEssid : List Plain
  margin : Plain
  essid : Essid
  further : List Plain
  indent : Plain
  number_digits : ∀ c ∈ number, c.isDigit = true
  mac_length : mac.length = 17
  mac_class : ∀ c ∈ mac, isMacChar c = true

/-- Lines with their terminators. -/
def lines (ls : List Plain) : Text := ls.flatMap fun l ↦ l.text ++ ['\n']

/-- The address line behind the cell marker, up to the address itself. -/
def Cell.title (c : Cell) : Text := c.number ++ " - ".toList

/-- Everything between the address and the level. -/
def Cell.middle (c : Cell) : Text := c.mac ++ '\n' :: (lines c.beforeLevel ++ c.quality.text)

/-- Everything between the level and the opening quote of the name. -/
def Cell.approach (c : Cell) : Text :=
  c.noise.text ++ '\n' :: (lines c.beforeEssid ++ (c.margin.text ++ "ESSID:".toList))

/-- Everything behind the closing quote of the name. -/
def Cell.rest (c : Cell) : Text := '\n' :: (lines c.further ++ c.indent.text)

/-- A cell up to the opening quote of the name, behind the cell marker. -/
def Cell.head (c : Cell) : Text :=
  c.title ++ (addressText ++ (c.middle ++
    (levelMarker ++ (strInt c.level ++ (levelUnit ++ c.approach)))))

/-- A cell behind the cell marker. -/
def Cell.body (c : Cell) : Text := c.head ++ '"' :: (c.essid.text ++ '"' :: c.rest)

/-- The whole scan. -/
def scanText (preamble : Plain) (cells : List Cell) : Text :=
  preamble.text ++ cells.flatMap fun c ↦ cellMarker ++ c.body

/-- The address of a cell in lower case. -/
def Cell.bssid (c : Cell) : Text := c.mac.map Char.toLower

/-- The level of the last cell with this address, `-100` without one. -/
def levelOf (cells : List Cell) (target : Text) : ℤ :=
  ((cells.filter fun c ↦ c.bssid = target).getLast?.map Cell.level).getD (-100)

theorem MarkerFree.append {a b : Text} (ha : MarkerFree a) (hb : MarkerFree b) :
    MarkerFree (a ++ '\n' :: b) := by
  constructor
  · intro h
    rcases infix_append_cons (by decide) h with h | h
    · exact ha.cell h
    · exact hb.cell h
  · intro h
    rw [List.map_append, List.map_cons, show foldCase '\n' = '\n' by decide] at h
    rcases infix_append_cons (by decide) h with h | h
    · exact ha.address h
    · exact hb.address h
  · intro h
    rcases infix_append_cons (by decide) h with h | h
    · exact ha.level h
    · exact hb.level h

/-- Lines before marker-free text are marker-free with it. -/
theorem markerFree_lines (ls : List Plain) {t : Text} (ht : MarkerFree t) :
    MarkerFree (lines ls ++ t) := by
  induction ls with
  | nil => exact ht
  | cons l ls ih =>
    have hl := l.free.append ih
    rw [lines, List.flatMap_cons, List.append_assoc, List.append_assoc]
    exact hl

theorem Cell.rest_free (c : Cell) : MarkerFree c.rest := by
  have hnil : MarkerFree [] := by decide
  exact hnil.append (markerFree_lines c.further c.indent.free)

private theorem not_infix_of_not_mem {lit t : Text} {x : Char} (hx : x ∈ lit) (ht : x ∉ t) :
    ¬ lit <:+: t := fun h ↦ ht (h.subset hx)

private theorem not_mem_number {c : Cell} {x : Char} (hx : x.isDigit = false) :
    x ∉ c.number := by
  intro hm
  rw [c.number_digits x hm] at hx
  cases hx

private theorem not_mem_mac {c : Cell} {x : Char} (hx : isMacChar x = false) : x ∉ c.mac := by
  intro hm
  rw [c.mac_class x hm] at hx
  cases hx

private theorem not_mem_strInt {n : ℤ} {x : Char} (hd : x.isDigit = false) (hx : x ≠ '-') :
    x ∉ strInt n := by
  intro hm
  rcases mem_strInt hm with h | h
  · rw [h] at hd
    cases hd
  · exact hx h

theorem Cell.title_free (c : Cell) : ¬ addressMarker <:+: c.title.map foldCase := by
  have hfold : ∀ x : Char, x.isDigit = true → foldCase x ≠ 'a' := by
    intro x hx hfold
    unfold foldCase at hfold
    split at hfold
    · exact absurd hfold (by decide)
    · have hb : 48 ≤ x.toNat ∧ x.toNat ≤ 57 := by
        simp only [Char.isDigit, Bool.and_eq_true, decide_eq_true_eq] at hx
        exact hx
      have hlow : ¬ ('A'.val ≤ x.val ∧ x.val ≤ 'Z'.val) := by
        intro hup
        have hlow : 65 ≤ x.toNat := hup.1
        omega
      have hsame : x.toLower = x := dif_neg hlow
      rw [hsame] at hfold
      subst hfold
      exact absurd hx (by decide)
  apply not_infix_of_not_mem (x := 'a') (by decide)
  intro hm
  rw [title, List.map_append] at hm
  rcases List.mem_append.mp hm with hm | hm
  · obtain ⟨x, hx, hfx⟩ := List.mem_map.mp hm
    exact hfold x (c.number_digits x hx) hfx
  · exact absurd hm (by decide)

theorem Cell.middle_free (c : Cell) :
    ¬ levelMarker <:+: c.title ++ (addressText ++ c.middle) := by
  intro h
  have hline : c.title ++ (addressText ++ c.middle) =
      (c.number ++ (" - ".toList ++ (addressText ++ c.mac))) ++
        '\n' :: (lines c.beforeLevel ++ c.quality.text) := by
    simp only [title, middle, List.append_assoc]
  rw [hline] at h
  rcases infix_append_cons (by decide) h with h | h
  · apply not_infix_of_not_mem (x := 'S') (by decide) _ h
    simp only [List.mem_append, not_or]
    exact ⟨not_mem_number (by decide), by decide, by decide, not_mem_mac (by decide)⟩
  · exact (markerFree_lines c.beforeLevel c.quality.free).level h

private theorem levelMarker_eq : levelMarker = 'S' :: ("ignal level".toList ++ ['=']) := by
  decide

private theorem levelUnit_eq : levelUnit = " d".toList ++ ['B', 'm'] := by decide

private theorem essid_eq : "ESSID:".toList = 'E' :: "SSID:".toList := by decide

theorem Cell.levelLine_free (c : Cell) {t : Text} (ht : ¬ cellMarker <:+: t) :
    ¬ cellMarker <:+: levelMarker ++ (strInt c.level ++ (levelUnit ++ t)) := by
  intro h
  have hline : levelMarker ++ (strInt c.level ++ (levelUnit ++ t)) =
      [] ++ 'S' :: ("ignal level".toList ++ '=' ::
        ((strInt c.level ++ " d".toList) ++ 'B' :: ([] ++ 'm' :: t))) := by
    rw [levelMarker_eq, levelUnit_eq]
    simp only [List.append_assoc, List.cons_append, List.nil_append]
  rw [hline] at h
  rcases infix_append_cons (by decide) h with h | h
  · exact absurd h (by decide)
  rcases infix_append_cons (by decide) h with h | h
  · exact absurd h (by decide)
  rcases infix_append_cons (by decide) h with h | h
  · apply not_infix_of_not_mem (x := 'C') (by decide) _ h
    rw [List.mem_append, not_or]
    exact ⟨not_mem_strInt (by decide) (by decide), by decide⟩
  rcases infix_append_cons (by decide) h with h | h
  · exact absurd h (by decide)
  · exact ht h

theorem Cell.head_free (c : Cell) : ¬ cellMarker <:+: c.head := by
  have happroach : ¬ cellMarker <:+: c.approach := by
    intro h
    rw [approach, essid_eq, ← List.append_assoc (lines c.beforeEssid)] at h
    rcases infix_append_cons (by decide) h with h | h
    · exact c.noise.free.cell h
    rcases infix_append_cons (by decide) h with h | h
    · exact (markerFree_lines c.beforeEssid c.margin.free).cell h
    · exact absurd h (by decide)
  intro h
  have hline : c.head = (c.number ++ (" - ".toList ++ (addressText ++ c.mac))) ++ '\n' ::
      ((lines c.beforeLevel ++ c.quality.text) ++
        (levelMarker ++ (strInt c.level ++ (levelUnit ++ c.approach)))) := by
    simp only [head, title, middle, List.append_assoc, List.cons_append]
  rw [hline] at h
  rcases infix_append_cons (by decide) h with h | h
  · apply not_infix_of_not_mem (x := 'l') (by decide) _ h
    simp only [List.mem_append, not_or]
    exact ⟨not_mem_number (by decide), by decide, by decide, not_mem_mac (by decide)⟩
  · rw [levelMarker_eq, List.cons_append] at h
    rcases infix_append_cons (by decide) h with h | h
    · exact (markerFree_lines c.beforeLevel c.quality.free).cell h
    · apply c.levelLine_free happroach
      rw [levelMarker_eq, List.cons_append]
      exact List.infix_cons h

/-- Up to its name a cell is read as its address and its level, whatever follows. -/
theorem Cell.reading_head (c : Cell) (t : Text) :
    reading? (c.head ++ t) = some (c.bssid, strInt c.level) := by
  have hmac : search matchMac? (c.head ++ t) = some c.mac := by
    have hsplit : c.head ++ t = c.title ++ (addressText ++ (c.mac ++
        ('\n' :: (lines c.beforeLevel ++ c.quality.text) ++ (levelMarker ++
          (strInt c.level ++ (levelUnit ++ (c.approach ++ t))))))) := by
      simp only [head, middle, List.append_assoc, List.cons_append]
    rw [hsplit, search_append_marker addressMarker_of_match (by decide) addressText_folded
      c.title_free]
    exact search_of_match (matchMac?_append c.mac_length c.mac_class _)
  have hlevel : search matchLevel? (c.head ++ t) = some (strInt c.level) := by
    have hsplit : c.head ++ t = (c.title ++ (addressText ++ c.middle)) ++ (levelMarker ++
        (strInt c.level ++ (levelUnit ++ (c.approach ++ t)))) := by
      simp only [head, List.append_assoc]
    rw [hsplit, search_append_marker levelMarker_of_match (by decide) (List.map_id _)
      (by rw [List.map_id]; exact c.middle_free)]
    exact search_of_match (matchLevel?_append c.level _)
  simp only [reading?, hmac, hlevel, bssid]

/-- The closing quote of a name is in no match of the first pattern. -/
theorem MacText.quote_not_mem {w mac : Text} (h : MacText w mac) : '"' ∉ w := by
  obtain ⟨marker, rfl, hmarker, -, hclass⟩ := h
  intro hm
  rcases List.mem_append.mp hm with hm | hm
  · have hfolded : foldCase '"' ∈ marker.map foldCase := List.mem_map_of_mem hm
    rw [hmarker] at hfolded
    exact absurd hfolded (by decide)
  · exact absurd (hclass _ hm) (by decide)

/-- The closing quote of a name is in no match of the second pattern. -/
theorem LevelText.quote_not_mem {w rssi : Text} (h : LevelText w rssi) : '"' ∉ w := by
  obtain ⟨rfl, hchars⟩ := h
  intro hm
  simp only [List.mem_append] at hm
  rcases hm with hm | hm | hm
  · exact absurd hm (by decide)
  · exact absurd (hchars _ hm) (by decide)
  · exact absurd hm (by decide)

/-- Text holding both a match of the first and a match of the second pattern has at least 29
characters: seventeen in the class of an address, twelve outside it. -/
theorem both_matches_long {d w w' mac rssi : Text} (hw : w <:+: d) (hw' : w' <:+: d)
    (hmac : MacText w mac) (hlevel : LevelText w' rssi) : 29 ≤ d.length := by
  obtain ⟨marker, rfl, -, hlen, hclass⟩ := hmac
  obtain ⟨rfl, -⟩ := hlevel
  have hin : 17 ≤ d.countP isMacChar := by
    have hle : (marker ++ mac).countP isMacChar ≤ d.countP isMacChar := hw.sublist.countP_le
    rw [List.countP_append, List.countP_eq_length.mpr hclass, hlen] at hle
    omega
  have hout : 12 ≤ d.countP fun c ↦ !isMacChar c := by
    have hle : (levelMarker ++ (rssi ++ levelUnit)).countP (fun c ↦ !isMacChar c) ≤
        d.countP fun c ↦ !isMacChar c := hw'.sublist.countP_le
    rw [List.countP_append, List.countP_append] at hle
    have hmarker : levelMarker.countP (fun c ↦ !isMacChar c) = 10 := by decide
    have hunit : levelUnit.countP (fun c ↦ !isMacChar c) = 2 := by decide
    omega
  have hall : d.length = d.countP isMacChar + d.countP (fun c ↦ !isMacChar c) := by
    rw [List.length_eq_countP_add_countP isMacChar]
    simp only [Bool.not_eq_true, Bool.decide_eq_false]
  omega

/-- What is left of a name after a cell marker, with or without what follows the name, is not
read as a cell. -/
theorem reading?_piece {d rest x : Text} (hrest : MarkerFree rest) (hd : d.length ≤ 27)
    (hx : x = d ∨ x = d ++ '"' :: rest) : reading? x = none := by
  have hmac : ∀ mac, search matchMac? x = some mac → ∃ w, w <:+: d ∧ MacText w mac := by
    intro mac h
    rcases hx with rfl | rfl
    · obtain ⟨s, hs, hm⟩ := exists_of_search h
      obtain ⟨w, hw, ht⟩ := matchMac?_some hm
      exact ⟨w, hw.isInfix.trans hs.isInfix, ht⟩
    · exact search_append_cons (fun _ _ ↦ matchMac?_some) (fun _ _ ↦ MacText.quote_not_mem)
        (search_eq_none addressMarker_of_match hrest.address) h
  have hlevel : ∀ rssi, search matchLevel? x = some rssi → ∃ w, w <:+: d ∧ LevelText w rssi := by
    intro rssi h
    rcases hx with rfl | rfl
    · obtain ⟨s, hs, hm⟩ := exists_of_search h
      obtain ⟨w, hw, ht⟩ := matchLevel?_some hm
      exact ⟨w, hw.isInfix.trans hs.isInfix, ht⟩
    · exact search_append_cons (fun _ _ ↦ matchLevel?_some) (fun _ _ ↦ LevelText.quote_not_mem)
        (search_eq_none levelMarker_of_match (by rw [List.map_id]; exact hrest.level)) h
  unfold reading?
  split
  · next mac rssi hm hl =>
    obtain ⟨w, hw, hmw⟩ := hmac mac hm
    obtain ⟨w', hw', hlw⟩ := hlevel rssi hl
    have hlong := both_matches_long hw hw' hmw hlw
    omega
  · rfl

theorem readings_of_markerFree {t : Text} (h : MarkerFree t) : readings t = [] := by
  have hnone : reading? t = none := by
    simp only [reading?, search_eq_none addressMarker_of_match h.address]
  rw [readings, split_of_not_infix h.cell, List.filterMap_cons_none hnone, List.filterMap_nil]

/-- A cell is read once, as its address and its level, whatever its name. -/
theorem Cell.readings_body (c : Cell) : readings c.body = [(c.bssid, strInt c.level)] := by
  have hquote : '"' ∉ cellMarker := by decide
  obtain ⟨piece, hpiece⟩ := split_append_cons (b := c.essid.text ++ '"' :: c.rest)
    hquote c.head_free
  obtain ⟨first, pieces, hsplit, -, hpieces⟩ :=
    split_pieces (by decide) hquote c.rest_free.cell c.essid.text
  have hforeign : pieces.filterMap reading? = [] := by
    apply List.filterMap_eq_nil_iff.mpr
    intro x hx
    obtain ⟨d, hd, hxd⟩ := hpieces x hx
    have hlen : cellMarker.length = 5 := by decide
    have hshort := c.essid.short
    exact reading?_piece c.rest_free (by omega) hxd
  rw [readings, body, hpiece, hsplit, List.tail_cons,
    List.filterMap_cons_some (c.reading_head _), hforeign]

theorem readings_scanText (preamble : Plain) (cells : List Cell) :
    readings (scanText preamble cells) = cells.map fun c ↦ (c.bssid, strInt c.level) := by
  have happend : ∀ t : Text, readings (t ++ cells.flatMap fun c ↦ cellMarker ++ c.body) =
      readings t ++ cells.map fun c ↦ (c.bssid, strInt c.level) := by
    induction cells with
    | nil => simp
    | cons c cells ih =>
      intro t
      have hcut := ih c.body
      rw [readings] at hcut
      rw [List.flatMap_cons, List.append_assoc, readings,
        split_append_sep (by decide) (by decide), List.filterMap_append, hcut, c.readings_body]
      rfl
  rw [scanText, happend, readings_of_markerFree preamble.free, List.nil_append]

/-- The last level read for an address is that of the last cell with it. -/
theorem lastLevel?_cells (cells : List Cell) (target : Text) :
    lastLevel? (cells.map fun c ↦ (c.bssid, strInt c.level)) target =
      (cells.filter fun c ↦ c.bssid = target).getLast?.map fun c ↦ strInt c.level := by
  rw [lastLevel?, List.filter_map, List.getLast?_map, Option.map_map]
  rfl

/-- Both implementations return the level of the last cell with each target's address. -/
theorem getRssiData_scanText {α : Type} (targets : PerAp Text) (number : Text → α)
    (value : ℤ → α) (hnumber : ∀ n, number (strInt n) = value n) (preamble : Plain)
    (cells : List Cell) :
    getRssiData targets (value (-100)) number (some (scanText preamble cells)) =
      some fun i ↦ value (levelOf cells (targets i)) := by
  rw [getRssiData_eq, readings_scanText, Option.some.injEq]
  ext i
  rw [lastLevel?_cells, levelOf]
  cases (cells.filter fun c ↦ c.bssid = targets i).getLast? with
  | none => rfl
  | some c => exact hnumber c.level

/-- With distinct addresses the order of the cells does not matter. -/
theorem levelOf_perm {cells cells' : List Cell} (h : cells.Perm cells')
    (hnodup : (cells.map Cell.bssid).Nodup) (target : Text) :
    levelOf cells' target = levelOf cells target := by
  have hperm := h.filter fun c ↦ decide (c.bssid = target)
  have hone : (cells.filter fun c ↦ c.bssid = target).length ≤ 1 := by
    have hsub : List.Sublist ((cells.filter fun c ↦ c.bssid = target).map Cell.bssid)
        (cells.map Cell.bssid) := List.filter_sublist.map _
    have hsame : (cells.filter fun c ↦ c.bssid = target).map Cell.bssid =
        List.replicate (cells.filter fun c ↦ c.bssid = target).length target := by
      apply List.eq_replicate_iff.mpr
      constructor
      · rw [List.length_map]
      · intro b hb
        obtain ⟨c, hc, rfl⟩ := List.mem_map.mp hb
        exact of_decide_eq_true (List.mem_filter.mp hc).2
    have hdup := hnodup.sublist hsub
    rw [hsame] at hdup
    exact List.nodup_replicate.mp hdup
  unfold levelOf
  cases hf : cells.filter fun c ↦ c.bssid = target with
  | nil =>
    rw [hf] at hperm
    rw [List.nil_perm.mp hperm]
  | cons c rest =>
    rw [hf, List.length_cons] at hone
    have hrest : rest = [] := List.length_eq_zero_iff.mp (by omega)
    rw [hf, hrest] at hperm
    rw [hrest, List.singleton_perm.mp hperm]

/-- **No network name corrupts a fingerprint.** For every scan both implementations return,
in target order, the level of the last cell whose address is the target's in any letter case,
and `-100` without one. The result depends on nothing but the addresses and the levels, cell
by cell, in particular on no name; and with distinct addresses not on the order of the
cells. -/
theorem fingerprint_of_scan (preamble : Plain) (cells : List Cell) :
    (RSSILogger.getRssiData (some (scanText preamble cells)) =
        some fun i ↦ levelOf cells (RSSILogger.targetBssids i)) ∧
      (RSSIPublisher.getRssiData (some (scanText preamble cells)) =
        some fun i ↦ (levelOf cells (RSSIPublisher.targetBssids i) : ℚ)) ∧
      (∀ preamble' cells', cells'.map (fun c ↦ (c.bssid, c.level)) =
          cells.map (fun c ↦ (c.bssid, c.level)) →
        RSSILogger.getRssiData (some (scanText preamble' cells')) =
            RSSILogger.getRssiData (some (scanText preamble cells)) ∧
          RSSIPublisher.getRssiData (some (scanText preamble' cells')) =
            RSSIPublisher.getRssiData (some (scanText preamble cells))) ∧
      (∀ cells', cells.Perm cells' → (cells.map Cell.bssid).Nodup →
        RSSILogger.getRssiData (some (scanText preamble cells')) =
            RSSILogger.getRssiData (some (scanText preamble cells)) ∧
          RSSIPublisher.getRssiData (some (scanText preamble cells')) =
            RSSIPublisher.getRssiData (some (scanText preamble cells))) := by
  have hlogger : ∀ pre cs, RSSILogger.getRssiData (some (scanText pre cs)) =
      some fun i ↦ levelOf cs (RSSILogger.targetBssids i) :=
    fun pre cs ↦ getRssiData_scanText RSSILogger.targetBssids intOf id intOf_strInt pre cs
  have hpublisher : ∀ pre cs, RSSIPublisher.getRssiData (some (scanText pre cs)) =
      some fun i ↦ (levelOf cs (RSSIPublisher.targetBssids i) : ℚ) := by
    intro pre cs
    have hvalue : ((-100 : ℤ) : ℚ) = -100 := rfl
    rw [RSSIPublisher.getRssiData, ← hvalue]
    apply getRssiData_scanText
    intro n
    rw [intOf_strInt]
  refine ⟨hlogger preamble cells, hpublisher preamble cells, ?_, ?_⟩
  · intro preamble' cells' hsame
    have hlevels : ∀ target, levelOf cells' target = levelOf cells target := by
      intro target
      have hof : ∀ cs : List Cell, levelOf cs target =
          ((((cs.map fun c ↦ (c.bssid, c.level)).filter fun r ↦ r.1 = target).getLast?.map
            Prod.snd).getD (-100)) := by
        intro cs
        rw [levelOf, List.filter_map, List.getLast?_map, Option.map_map]
        rfl
      rw [hof, hof, hsame]
    rw [hlogger, hlogger, hpublisher, hpublisher]
    simp only [hlevels, and_self]
  · intro cells' hperm hnodup
    have hlevels := levelOf_perm hperm hnodup
    rw [hlogger, hlogger, hpublisher, hpublisher]
    simp only [hlevels, and_self]

end MonitoringRobot.Rssi
