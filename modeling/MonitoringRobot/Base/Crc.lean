import Mathlib.Logic.Function.Iterate

/-!
# Cyclic redundancy checks

A reflected check of any width: the remainder takes the message bit by bit, lowest bit of a
byte first. A table makes eight steps at once. The steps are bijections as long as the
generator has its highest bit, so two messages that differ in few consecutive bits have
different remainders.
-/

namespace MonitoringRobot.Base.Crc

variable {w : Nat} {poly : BitVec w}

/-- One step of the remainder. -/
def shiftBit (poly c : BitVec w) : BitVec w :=
  if c.getLsbD 0 then poly ^^^ (c >>> 1) else c >>> 1

/-- A single bit as a remainder. -/
def ofBit (b : Bool) : BitVec w := (BitVec.ofBool b).setWidth w

/-- The remainder after one more message bit. -/
def bitStep (poly c : BitVec w) (b : Bool) : BitVec w := shiftBit poly (c ^^^ ofBit b)

/-- The remainder of a message behind the remainder `c`. -/
def remainder (poly c : BitVec w) (bits : List Bool) : BitVec w := bits.foldl (bitStep poly) c

/-- The bits of a byte, lowest first. -/
def byteBits (b : UInt8) : List Bool := (List.range 8).map b.toBitVec.getLsbD

/-- The bits of a byte string. -/
def messageBits (bytes : List UInt8) : List Bool := bytes.flatMap byteBits

/-- The table entry of a byte. -/
def entry (poly : BitVec w) (i : UInt8) : BitVec w :=
  Nat.iterate (shiftBit poly) 8 (i.toBitVec.setWidth w)

/-- The remainder after one more byte, with a table. -/
def byteStep (table : UInt8 → BitVec w) (c : BitVec w) (b : UInt8) : BitVec w :=
  (c >>> 8) ^^^ table (UInt8.ofBitVec (c.setWidth 8) ^^^ b)

/-! ### A step is linear and a bijection -/

theorem shiftBit_xor (a b : BitVec w) :
    shiftBit poly (a ^^^ b) = shiftBit poly a ^^^ shiftBit poly b := by
  unfold shiftBit
  rw [BitVec.getLsbD_xor, BitVec.ushiftRight_xor_distrib]
  cases a.getLsbD 0 with
  | false =>
    cases b.getLsbD 0 with
    | false => rfl
    | true =>
      simp only [Bool.false_xor, if_true, Bool.false_eq_true, if_false]
      ac_rfl
  | true =>
    cases b.getLsbD 0 with
    | false =>
      simp only [Bool.xor_false, if_true, Bool.false_eq_true, if_false]
      ac_rfl
    | true =>
      simp only [Bool.xor_self, Bool.false_eq_true, if_false, if_true]
      have hcancel : poly ^^^ (a >>> 1) ^^^ (poly ^^^ (b >>> 1)) =
          (poly ^^^ poly) ^^^ ((a >>> 1) ^^^ (b >>> 1)) := by ac_rfl
      rw [hcancel, BitVec.xor_self, BitVec.zero_xor]

theorem iterate_xor (n : Nat) (a b : BitVec w) : Nat.iterate (shiftBit poly) n (a ^^^ b) =
    Nat.iterate (shiftBit poly) n a ^^^ Nat.iterate (shiftBit poly) n b := by
  induction n generalizing a b with
  | zero => rfl
  | succ n ih => rw [Function.iterate_succ_apply, shiftBit_xor, ih]; rfl

theorem shiftBit_eq_zero (hpoly : poly.getLsbD (w - 1) = true) {c : BitVec w}
    (h : shiftBit poly c = 0#w) : c = 0#w := by
  have hw : 0 < w := BitVec.lt_of_getLsbD hpoly |> Nat.lt_of_le_of_lt (Nat.zero_le _)
  unfold shiftBit at h
  by_cases hlow : c.getLsbD 0 = true
  · have htop := congrArg (fun x ↦ x.getLsbD (w - 1)) h
    rw [if_pos hlow] at htop
    simp only [BitVec.getLsbD_xor, hpoly, BitVec.getLsbD_ushiftRight,
      BitVec.getLsbD_of_ge c (1 + (w - 1)) (by omega), BitVec.getLsbD_zero] at htop
    cases htop
  · rw [if_neg hlow] at h
    apply BitVec.eq_of_getLsbD_eq
    intro i hi
    rw [BitVec.getLsbD_zero]
    cases i with
    | zero => exact Bool.eq_false_iff.mpr hlow
    | succ i =>
      have hbit := congrArg (fun x ↦ x.getLsbD i) h
      simpa only [BitVec.getLsbD_ushiftRight, BitVec.getLsbD_zero, Nat.add_comm 1 i] using hbit

/-- A step is injective when the generator has its highest bit. -/
theorem shiftBit_injective (hpoly : poly.getLsbD (w - 1) = true) :
    Function.Injective (shiftBit poly) := by
  intro a b h
  rw [← BitVec.xor_eq_zero_iff]
  apply shiftBit_eq_zero hpoly
  rw [shiftBit_xor, h, BitVec.xor_self]

theorem remainder_injective (hpoly : poly.getLsbD (w - 1) = true) (bits : List Bool) :
    Function.Injective fun c ↦ remainder poly c bits := by
  induction bits with
  | nil => exact fun _ _ h ↦ h
  | cons b bits ih =>
    intro c d h
    have hstep : bitStep poly c b = bitStep poly d b := ih h
    have hxor := shiftBit_injective hpoly hstep
    rwa [BitVec.xor_left_inj] at hxor

/-! ### Few bits at once -/

/-- The bits as a number, lowest first. -/
def word : List Bool → BitVec w
  | [] => 0#w
  | b :: bits => ofBit b ^^^ (word bits <<< 1)

theorem getLsbD_word (bits : List Bool) (i : Nat) :
    (word bits : BitVec w).getLsbD i = (decide (i < w) && bits[i]?.getD false) := by
  induction bits generalizing i with
  | nil => simp [word]
  | cons b bits ih =>
    cases i with
    | zero => simp [word, ofBit]
    | succ i =>
      simp only [word, ofBit, BitVec.getLsbD_xor, BitVec.getLsbD_setWidth, BitVec.getLsbD_ofBool,
        BitVec.getLsbD_shiftLeft, ih, Nat.add_sub_cancel, List.getElem?_cons_succ]
      by_cases hi : i + 1 < w
      · simp [hi, Nat.lt_of_succ_lt hi]
      · simp [hi]

theorem word_injective {bits bits' : List Bool} (hlen : bits.length = bits'.length)
    (hw : bits.length ≤ w) (h : (word bits : BitVec w) = word bits') : bits = bits' := by
  apply List.ext_getElem hlen
  intro i hi hi'
  have hbit := congrArg (fun x : BitVec w ↦ x.getLsbD i) h
  have hlt : i < w := Nat.lt_of_lt_of_le hi hw
  simpa only [getLsbD_word, hlt, decide_true, Bool.true_and, List.getElem?_eq_getElem hi,
    List.getElem?_eq_getElem hi', Option.getD_some] using hbit

theorem shiftBit_shiftLeft {x : BitVec w} (hx : x.getLsbD (w - 1) = false) :
    shiftBit poly (x <<< 1) = x := by
  have hlow : ¬ (x <<< 1).getLsbD 0 = true := by simp
  rw [shiftBit, if_neg hlow]
  apply BitVec.eq_of_getLsbD_eq
  intro i hi
  simp only [BitVec.getLsbD_ushiftRight, BitVec.getLsbD_shiftLeft, Nat.add_sub_cancel_left]
  by_cases htop : i = w - 1
  · rw [htop, hx, Bool.and_false]
  · simp [show 1 + i < w by omega]

theorem remainder_eq_iterate (c : BitVec w) {bits : List Bool} (hw : bits.length ≤ w) :
    remainder poly c bits = Nat.iterate (shiftBit poly) bits.length (c ^^^ word bits) := by
  induction bits generalizing c with
  | nil => simp [remainder, word]
  | cons b bits ih =>
    rw [List.length_cons] at hw
    have htop : (word bits : BitVec w).getLsbD (w - 1) = false := by
      rw [getLsbD_word, List.getElem?_eq_none (by omega), Option.getD_none, Bool.and_false]
    calc remainder poly c (b :: bits) = remainder poly (bitStep poly c b) bits := rfl
      _ = Nat.iterate (shiftBit poly) bits.length (bitStep poly c b ^^^ word bits) :=
        ih _ (by omega)
      _ = Nat.iterate (shiftBit poly) bits.length
          (shiftBit poly (c ^^^ word (b :: bits))) := by
        rw [bitStep, word, ← BitVec.xor_assoc, shiftBit_xor _ (word bits <<< 1),
          shiftBit_shiftLeft htop]
      _ = _ := rfl

/-- Two messages that differ within as many consecutive bits as the check is wide have
different remainders. -/
theorem remainder_ne_of_burst (hpoly : poly.getLsbD (w - 1) = true) (c : BitVec w)
    {before burst burst' behind : List Bool} (hne : burst ≠ burst')
    (hlen : burst.length = burst'.length) (hw : burst.length ≤ w) :
    remainder poly c (before ++ burst ++ behind) ≠
      remainder poly c (before ++ burst' ++ behind) := by
  intro h
  simp only [remainder, List.foldl_append] at h
  have hmid := remainder_injective hpoly behind h
  have henter : ∀ bits : List Bool, bits.length ≤ w →
      bits.foldl (bitStep poly) (before.foldl (bitStep poly) c) =
        Nat.iterate (shiftBit poly) bits.length (before.foldl (bitStep poly) c ^^^ word bits) :=
    fun bits hbits ↦ remainder_eq_iterate _ hbits
  rw [henter burst hw, henter burst' (hlen ▸ hw), ← hlen] at hmid
  have hxor := (shiftBit_injective hpoly).iterate burst.length hmid
  rw [BitVec.xor_right_inj] at hxor
  exact hne (word_injective hlen hw hxor)

/-! ### The table -/

/-- Bits below the first set one are shifted out unchanged. -/
theorem iterate_shiftLeft (n : Nat) {x : BitVec w} (hx : ∀ i < n, x.getLsbD i = false) :
    Nat.iterate (shiftBit poly) n x = x >>> n := by
  induction n with
  | zero => simp
  | succ n ih =>
    have hlow : ¬ (x >>> n).getLsbD 0 = true := by
      rw [BitVec.getLsbD_ushiftRight, Nat.add_zero, hx n (Nat.lt_succ_self n)]
      exact Bool.false_ne_true
    rw [Function.iterate_succ_apply', ih fun i hi ↦ hx i (Nat.lt_succ_of_lt hi), shiftBit,
      if_neg hlow, BitVec.shiftRight_add]

theorem split_byte (x : BitVec w) :
    x = (x.setWidth 8).setWidth w ^^^ ((x >>> 8) <<< 8) := by
  apply BitVec.eq_of_getLsbD_eq
  intro i hi
  simp only [BitVec.getLsbD_xor, BitVec.getLsbD_setWidth, BitVec.getLsbD_shiftLeft,
    BitVec.getLsbD_ushiftRight, hi, decide_true, Bool.true_and]
  by_cases h8 : i < 8
  · simp [h8]
  · simp [h8, Nat.add_sub_cancel' (Nat.le_of_not_lt h8)]

theorem word_byteBits (b : UInt8) : (word (byteBits b) : BitVec w) = b.toBitVec.setWidth w := by
  apply BitVec.eq_of_getLsbD_eq
  intro i hi
  rw [getLsbD_word, BitVec.getLsbD_setWidth, byteBits]
  by_cases h8 : i < 8
  · simp [h8]
  · rw [List.getElem?_eq_none (by simpa using h8), Option.getD_none,
      BitVec.getLsbD_of_ge _ _ (Nat.le_of_not_lt h8)]

/-- With the table of the generator, a byte is as good as its eight bits. -/
theorem byteStep_entry (hw : 8 ≤ w) (c : BitVec w) (b : UInt8) :
    byteStep (entry poly) c b = remainder poly c (byteBits b) := by
  have hlen : (byteBits b).length = 8 := by simp [byteBits]
  have hindex : (UInt8.ofBitVec (c.setWidth 8) ^^^ b).toBitVec =
      (c ^^^ b.toBitVec.setWidth w).setWidth 8 := by
    apply BitVec.eq_of_getLsbD_eq
    intro i hi
    simp [hi, Nat.lt_of_lt_of_le hi hw]
  have hrest : (c ^^^ b.toBitVec.setWidth w) >>> 8 = c >>> 8 := by
    apply BitVec.eq_of_getLsbD_eq
    intro i hi
    simp
  have hhigh : Nat.iterate (shiftBit poly) 8 ((c >>> 8) <<< 8) = c >>> 8 := by
    rw [iterate_shiftLeft 8 (by intro i hi; simp [hi])]
    apply BitVec.eq_of_getLsbD_eq
    intro i hi
    simp only [BitVec.getLsbD_ushiftRight, BitVec.getLsbD_shiftLeft, Nat.add_sub_cancel_left]
    by_cases hlt : 8 + i < w
    · simp [hlt]
    · simp [hlt, BitVec.getLsbD_of_ge c (8 + i) (by omega)]
  rw [remainder_eq_iterate c (by omega), hlen, word_byteBits,
    split_byte (c ^^^ b.toBitVec.setWidth w), iterate_xor, hrest, hhigh, byteStep, entry, hindex,
    BitVec.xor_comm]

/-- The table-driven check of a byte string is the bitwise one. -/
theorem foldl_byteStep (hw : 8 ≤ w) (c : BitVec w) (bytes : List UInt8) :
    bytes.foldl (byteStep (entry poly)) c = remainder poly c (messageBits bytes) := by
  induction bytes generalizing c with
  | nil => rfl
  | cons b bytes ih =>
    rw [List.foldl_cons, byteStep_entry hw, ih]
    exact List.foldl_append.symm

end MonitoringRobot.Base.Crc
