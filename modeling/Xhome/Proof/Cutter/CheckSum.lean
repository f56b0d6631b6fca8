import Xhome.Impl.Cutter.CheckSum

/-!
# The checksum of a sequence of buffers

The words of a buffer and then the words of what follows it are the words of
the two joined, with the bytes the first left in front of the second
(`crcLoop_append`). At the next buffer `check_sum_new` sets `buf` and `size`
again, so the at most seven bytes that a buffer before the last leaves are
dropped (`checkSumFrom_append`). With a length divisible by 8 none are left,
and the sequence counts as its bytes in one buffer (`checkSumNew_flatten`).
-/

namespace XH.Proof.Cutter

open XH.Impl.Cutter

/-! ## `while (size >= 8)` -/

theorem crcLoop_append (crc : BitVec 32) (l m : List Byte) :
    crcLoop crc (l ++ m) = crcLoop (crcLoop crc l).1 ((crcLoop crc l).2 ++ m) := by
  fun_induction crcLoop crc l with
  | case1 crc b₀ b₁ b₂ b₃ b₄ b₅ b₆ b₇ rest ih => exact ih
  | case2 crc rest hshort => rfl

/-- Fewer than eight bytes are left. -/
theorem crcLoop_rest_lt (crc : BitVec 32) (l : List Byte) : (crcLoop crc l).2.length < 8 := by
  fun_induction crcLoop crc l with
  | case1 crc b₀ b₁ b₂ b₃ b₄ b₅ b₆ b₇ rest ih => exact ih
  | case2 crc rest hshort =>
    match rest, hshort with
    | [], _ | [_], _ | [_, _], _ | [_, _, _], _ | [_, _, _, _], _ | [_, _, _, _, _], _ | [_, _, _, _, _, _], _
    | [_, _, _, _, _, _, _], _ => simp
    | b₀ :: b₁ :: b₂ :: b₃ :: b₄ :: b₅ :: b₆ :: b₇ :: rest, hs => exact absurd rfl (hs b₀ b₁ b₂ b₃ b₄ b₅ b₆ b₇ rest)

/-- The value of `size` behind the loop. -/
theorem crcLoop_rest_length (crc : BitVec 32) (l : List Byte) : (crcLoop crc l).2.length = l.length % 8 := by
  fun_induction crcLoop crc l with
  | case1 crc b₀ b₁ b₂ b₃ b₄ b₅ b₆ b₇ rest ih =>
    rw [ih]
    simp only [List.length_cons]
    omega
  | case2 crc rest hshort =>
    have hlt := crcLoop_rest_lt crc rest
    rw [crcLoop.eq_2 _ _ hshort] at hlt
    exact (Nat.mod_eq_of_lt hlt).symm

/-- `assert(size == 0)`, for a buffer of whole blocks. -/
theorem crcLoop_rest {l : List Byte} (h : 8 ∣ l.length) (crc : BitVec 32) : (crcLoop crc l).2 = [] := by
  apply List.eq_nil_of_length_eq_zero
  rw [crcLoop_rest_length]
  exact Nat.mod_eq_zero_of_dvd h

theorem crcLoop_short {crc : BitVec 32} {l : List Byte} (h : l.length < 8) : crcLoop crc l = (crc, l) := by
  rw [crcLoop.eq_2]
  rintro b₀ b₁ b₂ b₃ b₄ b₅ b₆ b₇ rest rfl
  simp only [List.length_cons] at h
  omega

/-! ## The buffers before the last -/

/-- The bytes of a buffer that the loop consumes. -/
def wholeBlocks (b : Buffer) : Buffer := b.take (b.length / 8 * 8)

theorem wholeBlocks_dvd (b : Buffer) : 8 ∣ (wholeBlocks b).length := by
  have hlen : (wholeBlocks b).length = b.length / 8 * 8 := by
    rw [wholeBlocks, List.length_take]
    omega
  rw [hlen]
  exact Nat.dvd_mul_left 8 _

theorem wholeBlocks_eq {b : Buffer} (h : 8 ∣ b.length) : wholeBlocks b = b := by
  rw [wholeBlocks, Nat.div_mul_cancel h, List.take_length]

theorem crcLoop_wholeBlocks (crc : BitVec 32) (b : Buffer) : (crcLoop crc (wholeBlocks b)).1 = (crcLoop crc b).1 := by
  have hdrop : (b.drop (b.length / 8 * 8)).length < 8 := by
    rw [List.length_drop]
    omega
  have hsplit : wholeBlocks b ++ b.drop (b.length / 8 * 8) = b := List.take_append_drop _ b
  calc (crcLoop crc (wholeBlocks b)).1
      = (crcLoop (crcLoop crc (wholeBlocks b)).1 (b.drop (b.length / 8 * 8))).1 := by rw [crcLoop_short hdrop]
    _ = (crcLoop crc (wholeBlocks b ++ b.drop (b.length / 8 * 8))).1 := by
        rw [crcLoop_append, crcLoop_rest (wholeBlocks_dvd b), List.nil_append]
    _ = (crcLoop crc b).1 := by rw [hsplit]

theorem checkSumFrom_cons (crc : BitVec 32) (b : Buffer) {bs : List Buffer} (h : bs ≠ []) :
    checkSumFrom crc (b :: bs) = checkSumFrom (crcLoop crc b).1 bs := by
  rw [checkSumFrom]
  exact h

theorem checkSumFrom_concat (crc : BitVec 32) (l : List Byte) (z : Byte) :
    checkSumFrom crc [l ++ [z]] = crcTail (crcLoop crc l).1 (crcLoop crc l).2 z := by
  simp [checkSumFrom]

/-- Whole blocks go from the buffer before to the front of the last. -/
theorem checkSumFrom_blocks {b l : Buffer} (h : 8 ∣ b.length) (hl : l ≠ []) (crc : BitVec 32) :
    checkSumFrom (crcLoop crc b).1 [l] = checkSumFrom crc [b ++ l] := by
  rw [← List.dropLast_concat_getLast hl, ← List.append_assoc, checkSumFrom_concat, checkSumFrom_concat,
    crcLoop_append, crcLoop_rest h, List.nil_append]

/-- Of the buffers before the last the whole blocks count, as though they stood
in front of the last. -/
theorem checkSumFrom_append {l : Buffer} (hl : l ≠ []) (bs : List Buffer) : ∀ crc : BitVec 32,
    checkSumFrom crc (bs ++ [l]) = checkSumFrom crc [(bs.map wholeBlocks).flatten ++ l] := by
  induction bs with
  | nil => exact fun _ => rfl
  | cons b bs ih =>
    intro crc
    have hne : (bs.map wholeBlocks).flatten ++ l ≠ [] := List.append_ne_nil_of_right_ne_nil _ hl
    rw [List.cons_append, checkSumFrom_cons _ _ (by simp), ih, ← crcLoop_wholeBlocks,
      checkSumFrom_blocks (wholeBlocks_dvd b) hne, List.map_cons, List.flatten_cons, List.append_assoc]

/-- Of buffers whose lengths are divisible by 8, but for the last, which is not
empty, `check_sum_new` is that of one buffer with their bytes. -/
theorem checkSumNew_flatten {bs : List Buffer} (hne : bs ≠ []) (h8 : ∀ b ∈ bs.dropLast, 8 ∣ b.length)
    (hl : bs.getLast hne ≠ []) : checkSumNew bs = checkSumNew [bs.flatten] := by
  have hwhole : bs.dropLast.map wholeBlocks = bs.dropLast := by
    rw [List.map_congr_left fun b hb => wholeBlocks_eq (h8 b hb), List.map_id']
  have hbs : bs.dropLast ++ [bs.getLast hne] = bs := List.dropLast_concat_getLast hne
  calc checkSumNew bs
      = checkSumFrom crcInit (bs.dropLast ++ [bs.getLast hne]) := by rw [hbs, checkSumNew]
    _ = checkSumFrom crcInit [bs.dropLast.flatten ++ bs.getLast hne] := by rw [checkSumFrom_append hl, hwhole]
    _ = checkSumNew [(bs.dropLast ++ [bs.getLast hne]).flatten] := by
        rw [List.flatten_append, List.flatten_singleton, checkSumNew]
    _ = checkSumNew [bs.flatten] := by rw [hbs]

/-- Eight bytes, no byte and three bytes. -/
theorem checkSumNew_flatten_three :
    checkSumNew [[1, 2, 3, 4, 5, 6, 7, 8], [], [9, 10, 11]] = checkSumNew [[1, 2, 3, 4, 5, 6, 7, 8, 9, 10, 11]] :=
  checkSumNew_flatten (by decide) (by decide) (by decide)

end XH.Proof.Cutter
