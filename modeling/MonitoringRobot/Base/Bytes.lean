import Mathlib.Algebra.Ring.Nat
import Mathlib.Data.List.Basic

/-!
# Byte strings

Little-endian numbers and exclusive-or checksums over lists of bytes, as wire formats use
them.
-/

namespace MonitoringRobot.Base

/-- The number a byte string denotes, lowest byte first. -/
def ofLE : List UInt8 → Nat
  | [] => 0
  | b :: bs => b.toNat + 256 * ofLE bs

/-- The low `k` bytes of a number, lowest byte first. -/
def toLE : Nat → Nat → List UInt8
  | 0, _ => []
  | k + 1, n => UInt8.ofNat n :: toLE k (n / 256)

@[simp] theorem length_toLE (k n : Nat) : (toLE k n).length = k := by
  induction k generalizing n with
  | zero => rfl
  | succ k ih => rw [toLE, List.length_cons, ih]

theorem ofLE_lt (bs : List UInt8) : ofLE bs < 256 ^ bs.length := by
  induction bs with
  | nil => exact Nat.one_pos
  | cons b bs ih =>
    have hb : b.toNat < 256 := b.toNat_lt
    rw [ofLE, List.length_cons, Nat.pow_succ]
    omega

/-- What is written in `k` bytes reads back modulo their range. -/
theorem ofLE_toLE (k n : Nat) : ofLE (toLE k n) = n % 256 ^ k := by
  induction k generalizing n with
  | zero => rw [toLE, ofLE, Nat.pow_zero, Nat.mod_one]
  | succ k ih =>
    rw [toLE, ofLE, ih, Nat.pow_succ', Nat.mod_mul]
    rfl

theorem ofLE_toLE_of_lt {k n : Nat} (h : n < 256 ^ k) : ofLE (toLE k n) = n := by
  rw [ofLE_toLE, Nat.mod_eq_of_lt h]

/-- The exclusive or of all bytes. -/
def xorAll : List UInt8 → UInt8
  | [] => 0
  | b :: bs => b ^^^ xorAll bs

/-- A checksum of two parts combines the parts' checksums. -/
theorem xorAll_append (bs cs : List UInt8) : xorAll (bs ++ cs) = xorAll bs ^^^ xorAll cs := by
  induction bs with
  | nil => rw [List.nil_append, xorAll, UInt8.zero_xor]
  | cons b bs ih => rw [List.cons_append, xorAll, xorAll, ih, UInt8.xor_assoc]

@[simp] theorem xorAll_singleton (b : UInt8) : xorAll [b] = b := UInt8.xor_zero

/-- A byte string that ends with its own checksum sums to zero. -/
theorem xorAll_concat_self (bs : List UInt8) : xorAll (bs ++ [xorAll bs]) = 0 := by
  rw [xorAll_append, xorAll_singleton, UInt8.xor_self]

/-- Replacing one byte moves the checksum by the difference of the two bytes. -/
theorem xorAll_set (bs : List UInt8) {i : Nat} (h : i < bs.length) (c : UInt8) :
    xorAll (bs.set i c) = xorAll bs ^^^ (bs[i] ^^^ c) := by
  induction bs generalizing i with
  | nil => exact absurd h (Nat.not_lt_zero i)
  | cons b bs ih =>
    cases i with
    | zero =>
      rw [List.set_cons_zero, xorAll, xorAll, List.getElem_cons_zero]
      calc c ^^^ xorAll bs = (b ^^^ b) ^^^ (c ^^^ xorAll bs) := by
            rw [UInt8.xor_self, UInt8.zero_xor]
        _ = b ^^^ xorAll bs ^^^ (b ^^^ c) := by ac_rfl
    | succ i =>
      rw [List.set_cons_succ, xorAll, xorAll, List.getElem_cons_succ,
        ih (Nat.lt_of_succ_lt_succ h), UInt8.xor_assoc]

/-- The whole pieces of `n` entries a list starts with, in order. -/
def pieces {α : Type} (n : Nat) (l : List α) : List (List α) :=
  (List.range (l.length / n)).map fun k ↦ (l.drop (k * n)).take n

/-- What is left of a list behind its whole pieces. -/
def remainder {α : Type} (n : Nat) (l : List α) : List α := l.drop (l.length / n * n)

section Pieces

variable {α : Type} {n : Nat}

theorem length_remainder (n : Nat) (l : List α) :
    (remainder n l).length = l.length % n := by
  rw [remainder, List.length_drop, Nat.mod_eq_sub_div_mul]

theorem piece_append {k : Nat} {l : List α} (m : List α) (h : (k + 1) * n ≤ l.length) :
    ((l ++ m).drop (k * n)).take n = (l.drop (k * n)).take n := by
  rw [Nat.succ_mul] at h
  rw [List.drop_append_of_le_length (by omega), List.take_append_of_le_length]
  rw [List.length_drop]
  omega

theorem pieces_concat_of_lt {l : List α} (x : α) (h : (remainder n l).length + 1 < n) :
    pieces n (l ++ [x]) = pieces n l ∧ remainder n (l ++ [x]) = remainder n l ++ [x] := by
  rw [length_remainder] at h
  have hdiv : (l ++ [x]).length / n = l.length / n := by
    rw [List.length_append, List.length_singleton, Nat.succ_div_of_not_dvd]
    intro hd
    have hmod := Nat.mod_eq_zero_of_dvd hd
    rw [Nat.add_mod, Nat.mod_eq_of_lt (by omega : 1 < n), Nat.mod_eq_of_lt h] at hmod
    omega
  have hle := Nat.div_mul_le_self l.length n
  rw [pieces, pieces, remainder, remainder, hdiv]
  constructor
  · apply List.map_congr_left
    intro k hk
    apply piece_append
    exact Nat.le_trans (Nat.mul_le_mul_right n (List.mem_range.mp hk)) hle
  · exact List.drop_append_of_le_length hle

/-- An entry that completes a piece appends it to the pieces. -/
theorem pieces_concat_of_eq {l : List α} (x : α) (h : (remainder n l).length + 1 = n) :
    pieces n (l ++ [x]) = pieces n l ++ [remainder n l ++ [x]] ∧
      remainder n (l ++ [x]) = [] := by
  rw [length_remainder] at h
  have hsplit := Nat.div_add_mod' l.length n
  have hpos : 0 < n := by omega
  have hlen : (l ++ [x]).length = (l.length / n + 1) * n := by
    rw [List.length_append, List.length_singleton, Nat.succ_mul]
    omega
  have hdiv : (l ++ [x]).length / n = l.length / n + 1 := by
    rw [hlen, Nat.mul_div_cancel _ hpos]
  have hle := Nat.div_mul_le_self l.length n
  rw [pieces, pieces, remainder, remainder, hdiv, List.range_succ, List.map_append]
  constructor
  · congr 1
    · apply List.map_congr_left
      intro k hk
      apply piece_append
      exact Nat.le_trans (Nat.mul_le_mul_right n (List.mem_range.mp hk)) hle
    · rw [List.map_singleton, List.drop_append_of_le_length hle, List.take_of_length_le]
      rw [List.length_append, List.length_drop, List.length_singleton]
      omega
  · rw [← hlen, List.drop_length]

end Pieces

end MonitoringRobot.Base
