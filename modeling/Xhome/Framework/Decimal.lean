import Xhome.Framework.Tree

/-!
# The first digits of a decimal name

Dropping the last `k` digits of a number is the division by `10 ^ k`.
-/

namespace XH

/-- A number with more digits than one, and the number without its last digit. -/
theorem decimal_div_ten {n : Nat} (h : 10 ≤ n) : decimal n = decimal (n / 10) ++ [(n % 10).digitChar] :=
  Nat.toDigits_of_base_le (by decide) h

/-- A number behind at least one other digit. -/
theorem decimal_div_pow {k n : Nat} (h : 10 ^ k ≤ n) :
    ∃ ds, ds.length = k ∧ (∀ c ∈ ds, c.isDigit) ∧ decimal n = decimal (n / 10 ^ k) ++ ds := by
  suffices hs : ∃ ds, ds.length = k ∧ decimal n = decimal (n / 10 ^ k) ++ ds by
    obtain ⟨ds, hl, he⟩ := hs
    exact ⟨ds, hl, fun c hc => isDigit_of_mem_decimal (n := n) (he ▸ List.mem_append_right _ hc), he⟩
  induction k generalizing n with
  | zero => exact ⟨[], rfl, by rw [Nat.pow_zero, Nat.div_one, List.append_nil]⟩
  | succ k ih =>
    have hpos : 0 < 10 ^ k := Nat.pow_pos (by decide)
    have hle : 10 ^ k ≤ n / 10 := (Nat.le_div_iff_mul_le (by decide)).mpr (by rwa [Nat.pow_succ] at h)
    obtain ⟨ds, hl, he⟩ := ih hle
    have hten : 10 ≤ n := by
      rw [Nat.pow_succ] at h
      omega
    refine ⟨ds ++ [(n % 10).digitChar], by rw [List.length_append, hl]; rfl, ?_⟩
    rw [decimal_div_ten hten, he, Nat.div_div_eq_div_mul, Nat.pow_succ, Nat.mul_comm 10, List.append_assoc]

theorem length_decimal {k n : Nat} (h : 10 ^ k ≤ n) (h' : n < 10 ^ (k + 1)) : (decimal n).length = k + 1 := by
  obtain ⟨ds, hl, -, he⟩ := decimal_div_pow h
  have hlt : n / 10 ^ k < 10 := Nat.div_lt_of_lt_mul (by rwa [Nat.pow_succ] at h')
  rw [he, List.length_append, hl, decimal, Nat.toDigits_of_lt_base hlt]
  exact Nat.add_comm 1 k

/-- The first digits. -/
theorem take_decimal {j k n : Nat} (h : 10 ^ (j + k) ≤ n) (h' : n < 10 ^ (j + k + 1)) :
    (decimal n).take (j + 1) = decimal (n / 10 ^ k) := by
  have hpos : 0 < 10 ^ k := Nat.pow_pos (by decide)
  obtain ⟨ds, hl, -, he⟩ := decimal_div_pow (k := k) (Nat.le_trans (Nat.pow_le_pow_right (by decide) (by omega)) h)
  have hlen : (decimal (n / 10 ^ k)).length = j + 1 := by
    refine length_decimal ((Nat.le_div_iff_mul_le hpos).mpr (by rwa [← Nat.pow_add])) (Nat.div_lt_of_lt_mul ?_)
    rwa [← Nat.pow_add, ← Nat.add_assoc, Nat.add_comm k j]
  rw [he, List.take_left' hlen]

end XH
