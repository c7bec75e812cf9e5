import MonitoringRobot.Lidar.Capsules
import MonitoringRobot.Lidar.Scans

/-!
# Angles and sync bits of capsuled samples

The samples of a frame are spread evenly from its start angle to the next one
(`edge_packages/src/rplidar_ros/sdk/src/dataunpacker/unpacker/handler_capsules.cpp:206-265`,
`:460-577`). A sample carries the sync bit when the running angle passes a whole turn behind
it; the driver cuts its scans there.
-/

namespace MonitoringRobot.Lidar
open MonitoringRobot.Base MonitoringRobot.Base.Machine

theorem turnQ16_pos : 0 < turnQ16 := by decide

/-- The loop gives one node for each step of the running angle. -/
theorem sampleLoop_eq_map (sample : Nat → Int × Int) (incQ16 : Int) (n k : Nat) (rawQ16 : Int) :
    sampleLoop sample incQ16 n k rawQ16 = (List.range n).map fun j : Nat ↦
      capsuleNode (rawQ16 + j * incQ16) incQ16 (sample (k + j)).1 (sample (k + j)).2 := by
  induction n generalizing k rawQ16 with
  | zero => rfl
  | succ n ih =>
    rw [sampleLoop, ih, List.range_succ_eq_map, List.map_cons, List.map_map]
    congr 1
    · simp
    · apply List.map_congr_left
      intro j _
      have hraw : rawQ16 + incQ16 + j * incQ16 = rawQ16 + (j + 1 : Nat) * incQ16 := by
        push_cast
        ring
      rw [Function.comp_apply, hraw, Nat.succ_eq_add_one, Nat.add_assoc, Nat.add_comm 1 j]

/-- A node has the sync flag when the running angle passes a turn. -/
theorem isSync_capsuleNode (rawQ16 incQ16 offsetQ16 distQ2 : Int) :
    (capsuleNode rawQ16 incQ16 offsetQ16 distQ2).isSync = syncBit rawQ16 incQ16 := by
  have hflag : (capsuleNode rawQ16 incQ16 offsetQ16 distQ2).flag =
      if syncBit rawQ16 incQ16 then 1 else 2 := rfl
  rw [HqNode.isSync, hflag]
  cases syncBit rawQ16 incQ16 <;> rfl

/-- As many nodes have the sync flag as the running angle passes turns. -/
theorem countP_sampleLoop (sample : Nat → Int × Int) (incQ16 rawQ16 : Int)
    (hraw : 0 ≤ rawQ16) (h0 : 0 ≤ incQ16) (hle : incQ16 ≤ turnQ16) (n k : Nat) :
    ((sampleLoop sample incQ16 n k rawQ16).countP HqNode.isSync : Int) =
      (rawQ16 + n * incQ16) / turnQ16 - rawQ16 / turnQ16 := by
  rw [sampleLoop_eq_map, List.countP_map, ← countP_steps turnQ16_pos h0 hle]
  congr 1
  apply List.countP_congr
  intro j _
  have hmul : 0 ≤ (j : Int) * incQ16 := Int.mul_nonneg (Int.natCast_nonneg j) h0
  have hpos : 0 ≤ rawQ16 + j * incQ16 + incQ16 := by omega
  rw [Function.comp_apply, isSync_capsuleNode, syncBit, Int.tmod_eq_emod_of_nonneg hpos]

/-! ### From one start angle to the next -/

/-- A start angle within one turn. -/
def StartsInTurn (frame : List UInt8) : Prop := startQ8 frame < 360 * 2 ^ 8

instance : DecidablePred StartsInTurn := fun _ ↦ inferInstanceAs (Decidable (_ < _))

/-- The scanner passes a whole turn from one frame to the next. -/
def Wraps (prev current : List UInt8) : Prop := startQ8 current < startQ8 prev

instance (prev current : List UInt8) : Decidable (Wraps prev current) :=
  inferInstanceAs (Decidable (_ < _))

theorem startAngleQ8_eq (s : Nat) : startAngleQ8 s = 4 * ((s &&& 0x7FFF : Nat) : Int) := by
  rw [startAngleQ8, Nat.shiftLeft_eq]
  push_cast
  ring

theorem startQ8_nonneg (frame : List UInt8) : 0 ≤ startQ8 frame := by
  rw [startQ8, startAngleQ8_eq]
  omega

/-- The way from one frame to the next, and where it ends. -/
theorem diffAngleQ8_spec {prev current : List UInt8} (hp : StartsInTurn prev)
    (hc : StartsInTurn current) :
    0 ≤ diffAngleQ8 (startQ8 prev) (startQ8 current) ∧
      diffAngleQ8 (startQ8 prev) (startQ8 current) < 360 * 2 ^ 8 ∧
      startQ8 prev + diffAngleQ8 (startQ8 prev) (startQ8 current) =
        startQ8 current + if Wraps prev current then 360 * 2 ^ 8 else 0 := by
  have hp0 := startQ8_nonneg prev
  have hc0 := startQ8_nonneg current
  have hp1 : startQ8 prev < 360 * 2 ^ 8 := hp
  have hc1 : startQ8 current < 360 * 2 ^ 8 := hc
  rw [diffAngleQ8]
  by_cases hw : Wraps prev current
  · have hlt : startQ8 current < startQ8 prev := hw
    rw [if_pos hlt, if_pos hw]
    omega
  · have hle : ¬ startQ8 current < startQ8 prev := hw
    rw [if_neg hle, if_neg hw]
    omega

/-- In the express format one sample carries the sync bit when the start angles pass a whole
turn, and none otherwise. -/
theorem Express.countP_unpack {prev current : List UInt8} (hp : StartsInTurn prev)
    (hc : StartsInTurn current) :
    (Express.unpack prev current).countP HqNode.isSync = if Wraps prev current then 1 else 0 := by
  obtain ⟨h0, hlt, hend⟩ := diffAngleQ8_spec hp hc
  have hp0 := startQ8_nonneg prev
  have hc0 := startQ8_nonneg current
  have hp1 : startQ8 prev < 360 * 2 ^ 8 := hp
  have hc1 : startQ8 current < 360 * 2 ^ 8 := hc
  have hcount := countP_sampleLoop (Express.sample prev)
    (diffAngleQ8 (startQ8 prev) (startQ8 current) * 2 ^ 3) (startQ8 prev * 2 ^ 8) (by omega)
    (by omega) (by rw [turnQ16]; omega) 32 0
  have hturns : startQ8 prev * 2 ^ 8 + ((32 : Nat) : Int) *
      (diffAngleQ8 (startQ8 prev) (startQ8 current) * 2 ^ 3) =
        (startQ8 current + if Wraps prev current then 360 * 2 ^ 8 else 0) * 2 ^ 8 := by
    rw [← hend]
    push_cast
    ring
  rw [hturns, turnQ16] at hcount
  rw [Express.unpack]
  split at hcount
  · next hw =>
    rw [if_pos hw]
    omega
  · next hw =>
    rw [if_neg hw]
    omega

/-- The scanner passes a whole turn in a step of the ultra format that its running angle,
whose step is rounded down, does not pass: the next frame starts at angle zero, and the way
there is not divided by three. -/
def Ultra.Missed (prev current : List UInt8) : Prop :=
  startQ8 current = 0 ∧ ¬ (3 : Int) ∣ startQ8 prev

instance (prev current : List UInt8) : Decidable (Ultra.Missed prev current) :=
  inferInstanceAs (Decidable (_ ∧ _))

theorem ediv_of_lt_two {T x : Int} (hT : 0 < T) (h0 : 0 ≤ x) (h2 : x < 2 * T) :
    x / T = if T ≤ x then 1 else 0 := by
  split
  · next h => exact ((Int.ediv_emod_unique (r := x - T) hT).mpr ⟨by omega, by omega, by omega⟩).1
  · next h => exact Int.ediv_eq_zero_of_lt h0 (by omega)

/-- Where 96 rounded steps end, when a turn is passed on the way. -/
theorem Ultra.reaches_iff {prev current diff inc q : Int} (hinc : inc = diff * 2 ^ 3 / 3)
    (hend : prev + diff = current + 360 * 2 ^ 8) (hq : current = 4 * q) (hq0 : 0 ≤ q) :
    turnQ16 ≤ prev * 2 ^ 8 + 96 * inc ↔ ¬ (current = 0 ∧ ¬ (3 : Int) ∣ prev) := by
  have hround : 3 * inc = 8 * diff - 8 * diff % 3 := by omega
  have hlt : 8 * diff % 3 < 3 := Int.emod_lt_of_pos _ (by omega)
  have hle : 0 ≤ 8 * diff % 3 := Int.emod_nonneg _ (by omega)
  have hsum : prev * 2 ^ 8 + 96 * inc =
      current * 2 ^ 8 + 360 * 2 ^ 16 - 32 * (8 * diff % 3) := by omega
  rw [hsum, turnQ16]
  by_cases hzero : current = 0
  · have hdvd : 8 * diff % 3 = 0 ↔ (3 : Int) ∣ prev := by omega
    rw [← hdvd]
    omega
  · omega

/-- In the ultra format one sample carries the sync bit when the start angles pass a whole
turn, unless the step is missed, and none otherwise. -/
theorem Ultra.countP_unpack {prev current : List UInt8} (hp : StartsInTurn prev)
    (hc : StartsInTurn current) : (Ultra.unpack prev current).countP HqNode.isSync =
      if Wraps prev current ∧ ¬ Missed prev current then 1 else 0 := by
  obtain ⟨h0, hlt, hend⟩ := diffAngleQ8_spec hp hc
  have hp0 := startQ8_nonneg prev
  have hc0 := startQ8_nonneg current
  have hp1 : startQ8 prev < 360 * 2 ^ 8 := hp
  have hc1 : startQ8 current < 360 * 2 ^ 8 := hc
  have hinc : (diffAngleQ8 (startQ8 prev) (startQ8 current) * 2 ^ 3).tdiv 3 =
      diffAngleQ8 (startQ8 prev) (startQ8 current) * 2 ^ 3 / 3 :=
    Int.tdiv_eq_ediv_of_nonneg (by omega)
  have hinc0 : 0 ≤ (diffAngleQ8 (startQ8 prev) (startQ8 current) * 2 ^ 3).tdiv 3 := by
    rw [hinc]
    exact Int.ediv_nonneg (by omega) (by omega)
  have hcount := countP_sampleLoop (Ultra.sample prev current)
    ((diffAngleQ8 (startQ8 prev) (startQ8 current) * 2 ^ 3).tdiv 3) (startQ8 prev * 2 ^ 8)
    (by omega) (by omega) (by rw [turnQ16]; omega) 96 0
  have hstart : startQ8 prev * 2 ^ 8 / turnQ16 = 0 :=
    Int.ediv_eq_zero_of_lt (by omega) (by rw [turnQ16]; omega)
  rw [hstart, sub_zero, Nat.cast_ofNat] at hcount
  apply Int.natCast_inj.mp
  refine hcount.trans ?_
  by_cases hw : Wraps prev current
  · rw [if_pos hw] at hend
    have hreach := reaches_iff hinc hend (startAngleQ8_eq _) (Int.natCast_nonneg _)
    rw [ediv_of_lt_two turnQ16_pos (by omega) (by rw [turnQ16]; omega)]
    by_cases hm : Missed prev current
    · rw [if_neg fun h ↦ hreach.mp h hm, if_neg fun h ↦ h.2 hm]
      rfl
    · rw [if_pos (hreach.mpr hm), if_pos ⟨hw, hm⟩]
      rfl
  · rw [if_neg hw] at hend
    rw [if_neg fun h ↦ hw h.1]
    exact Int.ediv_eq_zero_of_lt (by omega) (by rw [turnQ16]; omega)

/-! ### Turns of a whole run -/

/-- A published node with the sync flag. -/
def Decoded.isSync : Decoded → Bool
  | .hqNode n => n.isSync
  | _ => false

namespace CapsuleFormat

variable {τ : Type} {f : CapsuleFormat τ}

/-- The first frame of a measurement. -/
def HasSyncBit (f : CapsuleFormat τ) (frame : List UInt8) : Prop :=
  f.startAngleSyncQ6 frame &&& 0x8000 ≠ 0

instance (frame : List UInt8) : Decidable (f.HasSyncBit frame) :=
  inferInstanceAs (Decidable (_ ≠ _))

/-- The first frame of a measurement forgets the frame before. -/
theorem onFrame_sync {frame : List UInt8} (h : recvChecksum frame = checksum frame)
    (hsync : f.HasSyncBit frame) (s : CapsuleState τ) : f.onFrame s frame =
      ({ s with previous := some frame }, (if s.previous.isSome then
        [.decodingError errEventOnExpEncoderReset f.ansType frame] else []) ++
          [.newScanReset]) := by
  have hbit : f.startAngleSyncQ6 frame &&& 0x8000 ≠ 0 := hsync
  simp only [onFrame, if_pos h, onSyncBit, if_pos hbit, onScanNodeData, List.append_nil]

/-- A frame behind another one publishes the nodes between them. -/
theorem onFrame_some {frame : List UInt8} (h : recvChecksum frame = checksum frame)
    (hsync : ¬ f.HasSyncBit frame) (prev : List UInt8) (carried : τ) :
    f.onFrame { previous := some prev, carried := carried } frame =
      ({ previous := some frame, carried := (f.unpack carried prev frame).1 },
        (f.unpack carried prev frame).2.map .hqNode) := by
  have hbit : ¬ f.startAngleSyncQ6 frame &&& 0x8000 ≠ 0 := hsync
  simp only [onFrame, if_pos h, onSyncBit, if_neg hbit, onScanNodeData, List.nil_append]

theorem onFrame_none {frame : List UInt8} (h : recvChecksum frame = checksum frame)
    (hsync : ¬ f.HasSyncBit frame) (carried : τ) :
    f.onFrame { previous := none, carried := carried } frame =
      ({ previous := some frame, carried := carried }, []) := by
  have hbit : ¬ f.startAngleSyncQ6 frame &&& 0x8000 ≠ 0 := hsync
  simp only [onFrame, if_pos h, onSyncBit, if_neg hbit, onScanNodeData, List.nil_append]

theorem countP_map_hqNode (nodes : List HqNode) :
    (nodes.map Decoded.hqNode).countP Decoded.isSync = nodes.countP HqNode.isSync := by
  rw [List.countP_map]
  rfl

/-- What an intact frame keeps, and the sync flags it publishes. -/
theorem countP_onFrame {frame : List UInt8} (h : recvChecksum frame = checksum frame)
    (s : CapsuleState τ) : (f.onFrame s frame).1.previous = some frame ∧
      (f.onFrame s frame).2.countP Decoded.isSync =
        if f.HasSyncBit frame then 0
        else (s.previous.map fun prev ↦ (f.unpack s.carried prev frame).2.countP
          HqNode.isSync).getD 0 := by
  by_cases hsync : f.HasSyncBit frame
  · rw [onFrame_sync h hsync, if_pos hsync]
    constructor
    · rfl
    · split <;> rfl
  · rw [if_neg hsync]
    cases s with
    | mk previous carried =>
      cases previous with
      | none =>
        rw [onFrame_none h hsync]
        exact ⟨rfl, rfl⟩
      | some prev =>
        rw [onFrame_some h hsync]
        exact ⟨rfl, countP_map_hqNode _⟩

/-- Where two frames give one node with the sync flag exactly under `P`, a stream of frames
gives as many as there are neighbours under `P`, without those whose second one is the first
of a measurement. -/
theorem countP_frames {P : List UInt8 → List UInt8 → Prop} [∀ prev frame, Decidable (P prev frame)]
    {frames : List (List UInt8)} (hframes : ∀ frame ∈ frames, f.Intact frame)
    (hpair : ∀ carried, ∀ prev ∈ frames, ∀ frame ∈ frames,
      (f.unpack carried prev frame).2.countP HqNode.isSync = if P prev frame then 1 else 0)
    (carried : τ) : (emit f.onByte (fresh carried) frames.flatten).2.countP Decoded.isSync =
      (frames.zip frames.tail).countP fun pair ↦
        P pair.1 pair.2 ∧ ¬ f.HasSyncBit pair.2 := by
  rw [fresh, emit_onByte fun frame hf ↦ (hframes frame hf).framed]
  cases frames with
  | nil => rfl
  | cons first rest =>
    have hfirst := countP_onFrame (f := f) (hframes first (List.mem_cons_self ..)).summed
      { previous := none, carried := carried }
    rw [Option.map_none, Option.getD_none, ite_self] at hfirst
    rw [emit_cons, List.countP_append, hfirst.2, Nat.zero_add, List.tail_cons]
    generalize (f.onFrame _ first).1 = s at *
    replace hfirst := hfirst.1
    induction rest generalizing first s with
    | nil => rfl
    | cons second rest ih =>
      have hmem := List.mem_cons_of_mem first (List.mem_cons_self (a := second) (l := rest))
      have hsecond := countP_onFrame (f := f) (hframes second hmem).summed s
      have hrest := ih second (fun g hg ↦ hframes g (List.mem_cons_of_mem first hg))
        (fun c p hp g hg ↦ hpair c p (List.mem_cons_of_mem first hp) g
          (List.mem_cons_of_mem first hg)) _ hsecond.1
      rw [emit_cons, List.countP_append, hsecond.2, hrest, List.zip_cons_cons,
        List.countP_cons, Nat.add_comm, hfirst, Option.map_some, Option.getD_some,
        hpair s.carried first (List.mem_cons_self ..) second hmem]
      congr 1
      by_cases hsync : f.HasSyncBit second
      · simp [hsync]
      · simp [hsync]

end CapsuleFormat

/-- In an express scan whose frames start within a turn, the published samples carry the sync bit
as often as the start angles pass a whole turn from one frame to the next, except where a new
measurement starts. -/
theorem express_turns {frames : List (List UInt8)}
    (hframes : ∀ frame ∈ frames, Express.format.Intact frame)
    (hstarts : ∀ frame ∈ frames, StartsInTurn frame) :
    (emit Express.format.onByte (CapsuleFormat.fresh ()) frames.flatten).2.countP Decoded.isSync =
      (frames.zip frames.tail).countP fun pair ↦
        Wraps pair.1 pair.2 ∧ ¬ Express.format.HasSyncBit pair.2 :=
  CapsuleFormat.countP_frames hframes (fun _ prev hp frame hf ↦
    Express.countP_unpack (hstarts prev hp) (hstarts frame hf)) ()

/-- From 350 to 5 degrees one sample ends a turn. -/
theorem express_turns_five :
    (emit Express.format.onByte (CapsuleFormat.fresh ())
      [CapsuleFormat.blank 84 0xA7 0x5D 0x80 0x57,
        CapsuleFormat.blank 84 0xA1 0x54 0x40 0x01].flatten).2.countP Decoded.isSync = 1 := by
  have hfirst : Express.format.Intact (CapsuleFormat.blank 84 0xA7 0x5D 0x80 0x57) :=
    CapsuleFormat.intact_blank (by decide) (by decide) (by decide) (by decide)
  have hsecond : Express.format.Intact (CapsuleFormat.blank 84 0xA1 0x54 0x40 0x01) :=
    CapsuleFormat.intact_blank (by decide) (by decide) (by decide) (by decide)
  have hframes := List.forall_mem_cons.mpr ⟨hfirst, List.forall_mem_singleton.mpr hsecond⟩
  exact (express_turns hframes (by decide)).trans (by decide)

/-- In an ultra scan whose frames start within a turn, a turn is also missed when the frame behind
it starts exactly at angle zero and the way there is not divided by three. -/
theorem ultra_turns {frames : List (List UInt8)}
    (hframes : ∀ frame ∈ frames, Ultra.format.Intact frame)
    (hstarts : ∀ frame ∈ frames, StartsInTurn frame) :
    (emit Ultra.format.onByte (CapsuleFormat.fresh ()) frames.flatten).2.countP Decoded.isSync =
      (frames.zip frames.tail).countP fun pair ↦
        (Wraps pair.1 pair.2 ∧ ¬ Ultra.Missed pair.1 pair.2) ∧
          ¬ Ultra.format.HasSyncBit pair.2 :=
  CapsuleFormat.countP_frames hframes (fun _ prev hp frame hf ↦
    Ultra.countP_unpack (hstarts prev hp) (hstarts frame hf)) ()

/-- From 350 degrees to exactly 0 no sample ends the turn. -/
theorem ultra_turns_zero :
    (emit Ultra.format.onByte (CapsuleFormat.fresh ())
      [CapsuleFormat.blank 132 0xA7 0x5D 0x80 0x57,
        CapsuleFormat.blank 132 0xA0 0x50 0x00 0x00].flatten).2.countP Decoded.isSync = 0 := by
  have hfirst : Ultra.format.Intact (CapsuleFormat.blank 132 0xA7 0x5D 0x80 0x57) :=
    CapsuleFormat.intact_blank (by decide) (by decide) (by decide) (by decide)
  have hsecond : Ultra.format.Intact (CapsuleFormat.blank 132 0xA0 0x50 0x00 0x00) :=
    CapsuleFormat.intact_blank (by decide) (by decide) (by decide) (by decide)
  have hframes := List.forall_mem_cons.mpr ⟨hfirst, List.forall_mem_singleton.mpr hsecond⟩
  exact (ultra_turns hframes (by decide)).trans (by decide)

/-! ### Samples between two start angles -/

/-- The place of a sample on the circle: the angle is taken modulo one turn, and the sync flag
stands where the next step enters another turn. -/
def placed (angleQ16 stepQ16 offsetQ16 distQ2 : Int) : HqNode where
  angleZQ14 := ((angleQ16 - offsetQ16) / 2 ^ 10 % (360 * 2 ^ 6) * 2 ^ 8 / 90).toNat
  distMmQ2 := (distQ2 % 2 ^ 32).toNat
  quality := if distQ2 ≠ 0 then 0x2F <<< 2 else 0
  flag := if (angleQ16 + stepQ16) / turnQ16 ≠ angleQ16 / turnQ16 then 1 else 2

/-- `n` samples in equal steps from a start angle on. -/
def interpolate (sample : Nat → Int × Int) (startQ16 stepQ16 : Int) (n : Nat) : List HqNode :=
  (List.range n).map fun k : Nat ↦
    placed (startQ16 + k * stepQ16) stepQ16 (sample k).1 (sample k).2

theorem cut_turns (a : Int) :
    a * 2 ^ 8 / 90 % 2 ^ 16 = a % (360 * 2 ^ 6) * 2 ^ 8 / 90 := by
  have hsplit : a * 2 ^ 8 = a % (360 * 2 ^ 6) * 2 ^ 8 + a / (360 * 2 ^ 6) * 2 ^ 16 * 90 := by
    omega
  have hlow : 0 ≤ a % (360 * 2 ^ 6) := Int.emod_nonneg a (by decide)
  have hhigh : a % (360 * 2 ^ 6) < 360 * 2 ^ 6 := Int.emod_lt_of_pos a (by decide)
  rw [hsplit, Int.add_mul_ediv_right _ _ (by decide), Int.add_mul_emod_self_right,
    Int.emod_eq_of_lt (by omega) (by omega)]

/-- Adding or taking off one turn leaves an angle that is not negative, and changes it by
whole turns. -/
theorem normalized {a : Int} (h : -(360 * 2 ^ 6) ≤ a) :
    let above := if a < 0 then a + 360 * 2 ^ 6 else a
    let inTurn := if above ≥ 360 * 2 ^ 6 then above - 360 * 2 ^ 6 else above
    0 ≤ inTurn ∧ inTurn % (360 * 2 ^ 6) = a % (360 * 2 ^ 6) := by
  dsimp only
  split <;> split <;> omega

/-- Adding or taking off one turn, and the cut to 16 bits, place a node on the circle. -/
theorem capsuleNode_eq_placed {rawQ16 incQ16 offsetQ16 : Int} (distQ2 : Int)
    (h0 : 0 ≤ rawQ16) (hinc : 0 ≤ incQ16) (hle : incQ16 ≤ turnQ16)
    (hoffset : offsetQ16 ≤ rawQ16 + turnQ16) :
    capsuleNode rawQ16 incQ16 offsetQ16 distQ2 = placed rawQ16 incQ16 offsetQ16 distQ2 := by
  have hflag : syncBit rawQ16 incQ16 =
      decide ((rawQ16 + incQ16) / turnQ16 ≠ rawQ16 / turnQ16) := by
    rw [syncBit, Int.tmod_eq_emod_of_nonneg (by omega), decide_eq_decide,
      ediv_add_step turnQ16_pos hinc hle]
    split
    · next h => simp [h]
    · next h => simp [h]
  have hshift : (rawQ16 - offsetQ16) >>> (10 : Nat) = (rawQ16 - offsetQ16) / 2 ^ 10 :=
    Int.shiftRight_eq_div_pow ..
  have hlow : -(360 * 2 ^ 6) ≤ (rawQ16 - offsetQ16) / 2 ^ 10 := by
    rw [turnQ16] at hoffset
    omega
  obtain ⟨hpos, hmod⟩ := normalized hlow
  rw [capsuleNode, placed, hflag, hshift]
  rw [Int.tdiv_eq_ediv_of_nonneg (by omega), cut_turns, hmod]
  simp only [decide_eq_true_eq]

theorem sampleLoop_eq_interpolate {sample : Nat → Int × Int} {incQ16 rawQ16 : Int}
    (hraw : 0 ≤ rawQ16) (h0 : 0 ≤ incQ16) (hle : incQ16 ≤ turnQ16)
    (hoffset : ∀ k, (sample k).1 ≤ turnQ16) (n : Nat) :
    sampleLoop sample incQ16 n 0 rawQ16 = interpolate sample rawQ16 incQ16 n := by
  rw [sampleLoop_eq_map, interpolate]
  apply List.map_congr_left
  intro k _
  have hmul : 0 ≤ (k : Int) * incQ16 := Int.mul_nonneg (Int.natCast_nonneg k) h0
  have hk := hoffset k
  rw [Nat.zero_add, capsuleNode_eq_placed _ (by omega) h0 hle (by omega)]

theorem field_lt (bytes : List UInt8) (offset len : Nat) : field bytes offset len < 256 ^ len := by
  have hlt := ofLE_lt ((bytes.drop offset).take len)
  have hlen : ((bytes.drop offset).take len).length ≤ len := List.length_take_le ..
  exact Nat.lt_of_lt_of_le hlt (Nat.pow_le_pow_right (by omega) hlen)

/-- An offset of the express format is below eight degrees. -/
theorem Express.offset_le (frame : List UInt8) (k : Nat) :
    (Express.sample frame k).1 ≤ turnQ16 := by
  have hoffsets := field_lt frame (4 + 5 * (k / 2) + 4) 1
  have hlow : (if k % 2 = 0 then field frame (4 + 5 * (k / 2) + 4) 1 &&& 0xF
      else field frame (4 + 5 * (k / 2) + 4) 1 >>> 4) < 2 ^ 4 := by
    split
    · rw [show 0xF = 2 ^ 4 - 1 from rfl, Nat.and_two_pow_sub_one_eq_mod]
      exact Nat.mod_lt _ (by decide)
    · rw [Nat.shiftRight_eq_div_pow]
      omega
  have hhigh : field frame (4 + 5 * (k / 2) + 2 * (k % 2)) 2 &&& 0x3 < 2 ^ 2 := by
    rw [show 0x3 = 2 ^ 2 - 1 from rfl, Nat.and_two_pow_sub_one_eq_mod]
    exact Nat.mod_lt _ (by decide)
  rw [Express.sample]
  dsimp only
  rw [or_shiftLeft hlow, Nat.shiftLeft_eq, turnQ16]
  omega

/-- An offset of the ultra format is at most eight degrees. -/
theorem Ultra.offset_le (prev current : List UInt8) (k : Nat) :
    (Ultra.sample prev current k).1 ≤ turnQ16 := by
  have hmean : ∀ dist : Int, offsetAngleMeanQ16 dist ≤ 9150 := by
    intro dist
    unfold offsetAngleMeanQ16
    split
    · have hk : 0 ≤ (98361 : Int).tdiv dist := Int.tdiv_nonneg (by omega) (by omega)
      have hcube : 0 ≤ ((98361 : Int).tdiv dist * (98361 : Int).tdiv dist *
          (98361 : Int).tdiv dist).tdiv 98304 :=
        Int.tdiv_nonneg (Int.mul_nonneg (Int.mul_nonneg hk hk) hk) (by omega)
      dsimp only
      omega
    · omega
  have hoffset : ∀ dist : Int, offsetQ16 dist ≤ turnQ16 := by
    intro dist
    have hm := hmean dist
    rw [offsetQ16, turnQ16]
    by_cases hneg : 0 ≤ offsetAngleMeanQ16 dist
    · rw [Int.tdiv_eq_ediv_of_nonneg (by omega)]
      omega
    · have hflip := Int.neg_tdiv (offsetAngleMeanQ16 dist * 180 * 100000000) 314159265
      have hpos : 0 ≤ (-(offsetAngleMeanQ16 dist * 180 * 100000000)).tdiv 314159265 :=
        Int.tdiv_nonneg (by omega) (by omega)
      omega
  exact hoffset _

/-- The samples of a frame are interpolated between its start angle and the next one, on the
circle: no angle leaves the turn or its 16 bits, and the sync flag stands where a turn ends. -/
theorem unpack_interpolates {prev current : List UInt8} (hp : StartsInTurn prev)
    (hc : StartsInTurn current) :
    Express.unpack prev current =
      interpolate (Express.sample prev) (startQ8 prev * 2 ^ 8)
        (diffAngleQ8 (startQ8 prev) (startQ8 current) * 2 ^ 8 / 32) 32 ∧
    Ultra.unpack prev current =
      interpolate (Ultra.sample prev current) (startQ8 prev * 2 ^ 8)
        (diffAngleQ8 (startQ8 prev) (startQ8 current) * 2 ^ 8 / 96) 96 := by
  obtain ⟨h0, hlt, -⟩ := diffAngleQ8_spec hp hc
  have hp0 := startQ8_nonneg prev
  have hexpress : diffAngleQ8 (startQ8 prev) (startQ8 current) * 2 ^ 8 / 32 =
      diffAngleQ8 (startQ8 prev) (startQ8 current) * 2 ^ 3 := by omega
  have hultra : diffAngleQ8 (startQ8 prev) (startQ8 current) * 2 ^ 8 / 96 =
      (diffAngleQ8 (startQ8 prev) (startQ8 current) * 2 ^ 3).tdiv 3 := by
    rw [Int.tdiv_eq_ediv_of_nonneg (by omega)]
    omega
  have hinc0 : 0 ≤ (diffAngleQ8 (startQ8 prev) (startQ8 current) * 2 ^ 3).tdiv 3 :=
    Int.tdiv_nonneg (by omega) (by omega)
  have hinc1 : (diffAngleQ8 (startQ8 prev) (startQ8 current) * 2 ^ 3).tdiv 3 ≤ turnQ16 := by
    rw [← hultra, turnQ16]
    omega
  rw [hexpress, hultra]
  constructor
  · exact sampleLoop_eq_interpolate (by omega) (by omega) (by rw [turnQ16]; omega)
      (Express.offset_le prev) 32
  · exact sampleLoop_eq_interpolate (by omega) hinc0 hinc1 (Ultra.offset_le prev current) 96

/-- From 350 to 5 degrees. -/
theorem unpack_interpolates_five :
    Express.unpack (CapsuleFormat.blank 84 0xA7 0x5D 0x80 0x57)
        (CapsuleFormat.blank 84 0xA1 0x54 0x40 0x01) =
      interpolate (Express.sample (CapsuleFormat.blank 84 0xA7 0x5D 0x80 0x57))
        (22400 * 4 * 256) (15 * 256 * 256 / 32) 32 :=
  (unpack_interpolates (by decide) (by decide)).1

end MonitoringRobot.Lidar
