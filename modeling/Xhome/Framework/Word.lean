import Mathlib.Data.Int.Basic
import Mathlib.Tactic.Linarith

/-!
# 32-bit arithmetic

The unsigned 32-bit variables of the sources are natural numbers below `2^32`;
`u32` is a store into such a variable, `sub32` the subtraction and `i32` the
cast to `int`. The lemmas give the exact values wherever nothing wraps.
-/

namespace XH

abbrev Byte := BitVec 8

/-- The value stored when `n` is assigned to a 32-bit unsigned variable. -/
def u32 (n : Nat) : Nat := n % 2 ^ 32

/-- `a - b` on 32-bit unsigned operands. -/
def sub32 (a b : Nat) : Nat := (a + (2 ^ 32 - b % 2 ^ 32)) % 2 ^ 32

/-- The cast `(int)n` of a 32-bit unsigned value. -/
def i32 (n : Nat) : Int := if n % 2 ^ 32 < 2 ^ 31 then (n % 2 ^ 32 : Nat) else (n % 2 ^ 32 : Nat) - 2 ^ 32

theorem u32_of_lt {n : Nat} (h : n < 2 ^ 32) : u32 n = n := Nat.mod_eq_of_lt h

theorem u32_u32_add (a b : Nat) : u32 (u32 a + b) = u32 (a + b) := by
  simp only [u32]; omega

theorem sub32_of_le {a b : Nat} (ha : a < 2 ^ 32) (h : b ≤ a) : sub32 a b = a - b := by
  simp only [sub32]; omega

theorem i32_of_lt {n : Nat} (h : n < 2 ^ 31) : i32 n = n := by
  rw [i32, Nat.mod_eq_of_lt (by omega), if_pos h]

/-- A difference of unsigned values read as an `int` is the true difference
whenever that lies in the range of an `int`. -/
theorem i32_sub32 {a b : Nat} (ha : a < 2 ^ 32) (hb : b < 2 ^ 32) (h₁ : a < b + 2 ^ 31)
    (h₂ : b ≤ a + 2 ^ 31) : i32 (sub32 a b) = (a : Int) - b := by
  rcases Nat.lt_or_ge a b with h | h
  · have e : sub32 a b % 2 ^ 32 = a + 2 ^ 32 - b := by simp only [sub32]; omega
    rw [i32, e, if_neg (by omega)]
    omega
  · rw [sub32_of_le ha h, i32_of_lt (by omega)]
    omega

/-- A truncated quotient is positive from the divisor on. -/
theorem tdiv_pos_iff {a b : Int} (hb : 0 < b) : 0 < a.tdiv b ↔ b ≤ a := by
  rcases Int.le_total 0 a with ha | ha
  · rw [Int.tdiv_eq_ediv_of_nonneg ha, Int.lt_iff_add_one_le, Int.le_ediv_iff_mul_le hb]
    omega
  · have hq : 0 ≤ (-a).tdiv b := Int.tdiv_nonneg (by omega) (by omega)
    rw [Int.neg_tdiv] at hq
    constructor <;> intro <;> omega

end XH
