import Mathlib.Data.Int.Basic
import Mathlib.Tactic.Common

/-!
# Decimal integers as text

Text is a list of characters. `strInt` is `str(n)` of an integer; `intOf` is `int(s)` on a
text of an optional minus sign and decimal digits, where a digit is any character of Unicode
category Nd, as `\d` and `int()` read it. The zero of each of the 68 blocks of ten digits is
listed for Unicode 15.0, the tables of Python 3.12.
-/

namespace MonitoringRobot.Base

/-- Python `str`: the sequence of its code points. -/
abbrev Text := List Char

/-- The code points of value zero among the decimal digits; each starts a block of ten. -/
def decimalZeros : List Nat :=
  [0x30, 0x660, 0x6f0, 0x7c0, 0x966, 0x9e6, 0xa66, 0xae6, 0xb66, 0xbe6, 0xc66, 0xce6, 0xd66,
   0xde6, 0xe50, 0xed0, 0xf20, 0x1040, 0x1090, 0x17e0, 0x1810, 0x1946, 0x19d0, 0x1a80, 0x1a90,
   0x1b50, 0x1bb0, 0x1c40, 0x1c50, 0xa620, 0xa8d0, 0xa900, 0xa9d0, 0xa9f0, 0xaa50, 0xabf0,
   0xff10, 0x104a0, 0x10d30, 0x11066, 0x110f0, 0x11136, 0x111d0, 0x112f0, 0x11450, 0x114d0,
   0x11650, 0x116c0, 0x11730, 0x118e0, 0x11950, 0x11c50, 0x11d50, 0x11da0, 0x11f50, 0x16a60,
   0x16ac0, 0x16b50, 0x1d7ce, 0x1d7d8, 0x1d7e2, 0x1d7ec, 0x1d7f6, 0x1e140, 0x1e2f0, 0x1e4f0,
   0x1e950, 0x1fbf0]

/-- The value of a decimal digit, `none` on every other character. -/
def digit? (c : Char) : Option Nat :=
  (decimalZeros.find? fun z ↦ z ≤ c.toNat && c.toNat < z + 10).map fun z ↦ c.toNat - z

/-- `\d`: the character is a decimal digit. -/
def isDecimal (c : Char) : Bool := (digit? c).isSome

/-- `int(ds)` of a run of decimal digits. -/
def natOf (ds : Text) : Nat := ds.foldl (fun n c ↦ 10 * n + (digit? c).getD 0) 0

/-- `int(s)` of an optional minus sign and decimal digits. -/
def intOf : Text → Int
  | '-' :: ds => -(natOf ds : Int)
  | ds => natOf ds

/-- `str(n)`. -/
def strInt : Int → Text
  | .ofNat n => Nat.toDigits 10 n
  | .negSucc n => '-' :: Nat.toDigits 10 (n + 1)

/-- An ASCII digit is the digit of its offset from `'0'`. -/
theorem digit?_of_isDigit {c : Char} (h : c.isDigit = true) :
    digit? c = some (c.toNat - '0'.toNat) := by
  have hb : 48 ≤ c.toNat ∧ c.toNat ≤ 57 := by
    simp only [Char.isDigit, Bool.and_eq_true, decide_eq_true_eq] at h
    exact h
  have hf : (48 ≤ c.toNat && c.toNat < 48 + 10) = true := by
    simp only [Bool.and_eq_true, decide_eq_true_eq]
    omega
  simp only [digit?, decimalZeros, List.find?_cons, hf, Option.map_some]
  rfl

theorem isDecimal_of_isDigit {c : Char} (h : c.isDigit = true) : isDecimal c = true := by
  simp only [isDecimal, digit?_of_isDigit h, Option.isSome_some]

/-- Every character of a rendered natural number is an ASCII digit. -/
theorem isDigit_of_mem_toDigits {n : Nat} {c : Char} (h : c ∈ Nat.toDigits 10 n) :
    c.isDigit = true :=
  Nat.isDigit_of_mem_toDigits (by omega) (by omega) h

private theorem natOf_eq_ofDigitChars (ds : Text) (h : ∀ c ∈ ds, c.isDigit = true) (n : Nat) :
    ds.foldl (fun n c ↦ 10 * n + (digit? c).getD 0) n = Nat.ofDigitChars 10 ds n := by
  induction ds generalizing n with
  | nil => rw [Nat.ofDigitChars_nil, List.foldl_nil]
  | cons c ds ih =>
    rw [List.foldl_cons, Nat.ofDigitChars_cons, digit?_of_isDigit (h c (by simp)),
      Option.getD_some]
    exact ih (fun d hd ↦ h d (by simp [hd])) _

theorem natOf_toDigits (n : Nat) : natOf (Nat.toDigits 10 n) = n := by
  unfold natOf
  rw [natOf_eq_ofDigitChars _ (fun c hc ↦ isDigit_of_mem_toDigits hc)]
  exact Nat.ofDigitChars_ten_toDigits

private theorem intOf_of_digits {ds : Text} (h : ∀ c ∈ ds, c.isDigit = true) :
    intOf ds = natOf ds := by
  unfold intOf
  split
  · next ds =>
    have hm : '-'.isDigit = true := h '-' (by simp)
    exact absurd hm (by decide)
  · rfl

theorem intOf_strInt (n : Int) : intOf (strInt n) = n := by
  cases n with
  | ofNat n =>
    change intOf (Nat.toDigits 10 n) = _
    rw [intOf_of_digits fun c hc ↦ isDigit_of_mem_toDigits hc, natOf_toDigits]
    rfl
  | negSucc n =>
    change -(natOf (Nat.toDigits 10 (n + 1)) : Int) = _
    rw [natOf_toDigits]
    rfl

theorem strInt_injective : Function.Injective strInt := by
  intro a b h
  rw [← intOf_strInt a, h, intOf_strInt]

/-- A rendered integer holds digits and at most a minus sign. -/
theorem mem_strInt {n : Int} {c : Char} (h : c ∈ strInt n) : c.isDigit = true ∨ c = '-' := by
  cases n with
  | ofNat n => exact .inl (isDigit_of_mem_toDigits h)
  | negSucc n =>
    rcases List.mem_cons.mp h with rfl | h
    · exact .inr rfl
    · exact .inl (isDigit_of_mem_toDigits h)

end MonitoringRobot.Base
