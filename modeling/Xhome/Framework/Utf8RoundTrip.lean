import Xhome.Framework.Utf8

/-!
# Strings written as UTF-8 and read again

Bytes that `getBytes` has written are read one code point after the other, and
only a surrogate without a partner is lost: `newString_getBytes` says what is
read, `transcoded_eq_iff` that it is the string exactly if all surrogates are
paired.
-/

namespace XH.Utf8

/-- What is read of a unit that is not the first of a pair. -/
def kept (u : CodeUnit) : CodeUnit := if isHigh u || isLow u then 0x3F else u

/-- What is read of a string. -/
def transcoded : List CodeUnit → List CodeUnit
  | [] => []
  | [u] => [kept u]
  | u :: v :: s => if isHigh u && isLow v then u :: v :: transcoded s else kept u :: transcoded (v :: s)

/-! ## One code point -/

theorem decodeFrom_drop (ts bs : List Byte) : decodeFrom ts.length (ts ++ bs) = decodeFrom 0 bs := by
  induction ts with
  | nil => rfl
  | cons t ts ih => exact ih

/-- A lead byte with the bytes it announces. -/
theorem newString_sequence {b : Byte} {ts : List Byte} {lo hi : Nat} (hb : 0x80 ≤ b.toNat)
    (hl : lead b = some (ts.length, lo, hi)) (bs : List Byte) (ht : tails ts.length lo hi (ts ++ bs) = ts) :
    newString (b :: (ts ++ bs)) = unitsOf (decodePoint b ts) ++ newString bs := by
  have hat : decodeAt b (ts ++ bs) = (unitsOf (decodePoint b ts), ts.length) := by
    rw [decodeAt, if_neg (by omega), hl]
    dsimp only
    rw [ht, if_pos rfl]
  rw [newString, decodeFrom, hat, decodeFrom_drop]
  rfl

/-- A byte that continues a sequence. -/
theorem tails_cons {k lo hi : Nat} {t : Byte} (h : lo ≤ t.toNat ∧ t.toNat ≤ hi) (bs : List Byte) :
    tails (k + 1) lo hi (t :: bs) = t :: tails k 0x80 0xBF bs := if_pos h

theorem tails_zero (lo hi : Nat) (bs : List Byte) : tails 0 lo hi bs = [] := by
  cases bs <;> rfl

theorem toNat_byte {k : Nat} (h : k < 256) : (BitVec.ofNat 8 k).toNat = k := by
  rw [BitVec.toNat_ofNat, Nat.mod_eq_of_lt h]

theorem newString_two {n : Nat} (h : 0x80 ≤ n) (h' : n < 0x800) (bs : List Byte) :
    newString (.ofNat 8 (0xC0 + n / 64) :: ([.ofNat 8 (0x80 + n % 64)] ++ bs)) = unitsOf n ++ newString bs := by
  have h₀ := toNat_byte (k := 0xC0 + n / 64) (by omega)
  have h₁ := toNat_byte (k := 0x80 + n % 64) (by omega)
  have hl : lead (.ofNat 8 (0xC0 + n / 64)) = some (1, 0x80, 0xBF) := by
    unfold lead
    dsimp only
    rw [h₀, if_neg (by omega), if_pos (by omega)]
  rw [newString_sequence (by omega) hl]
  · congr 2
    simp only [decodePoint, List.foldl, List.length_singleton, h₀, h₁]
    omega
  · rw [List.length_singleton, List.singleton_append, tails_cons (by omega), tails_zero]

theorem newString_three {n : Nat} (h : 0x800 ≤ n) (h' : n < 0x10000) (bs : List Byte) :
    newString (.ofNat 8 (0xE0 + n / 4096) :: ([.ofNat 8 (0x80 + n / 64 % 64), .ofNat 8 (0x80 + n % 64)] ++ bs)) =
      unitsOf n ++ newString bs := by
  have h₀ := toNat_byte (k := 0xE0 + n / 4096) (by omega)
  have h₁ := toNat_byte (k := 0x80 + n / 64 % 64) (by omega)
  have h₂ := toNat_byte (k := 0x80 + n % 64) (by omega)
  -- behind `E0` the second byte has to be `A0` at least
  obtain ⟨lo, hl, hlo⟩ : ∃ lo, lead (.ofNat 8 (0xE0 + n / 4096)) = some (2, lo, 0xBF) ∧ lo ≤ 0x80 + n / 64 % 64 := by
    unfold lead
    dsimp only
    rw [h₀, if_neg (by omega), if_neg (by omega)]
    by_cases hz : n < 4096
    · rw [if_pos (by omega)]
      exact ⟨0xA0, rfl, by omega⟩
    · rw [if_neg (by omega), if_pos (by omega)]
      exact ⟨0x80, rfl, by omega⟩
  rw [newString_sequence (by omega) hl]
  · congr 2
    simp only [decodePoint, List.foldl, List.length_cons, List.length_nil, h₀, h₁, h₂]
    omega
  · rw [List.length_cons, List.length_singleton, List.cons_append, List.singleton_append, tails_cons (by omega),
      tails_cons (by omega), tails_zero]

theorem newString_four {n : Nat} (h : 0x10000 ≤ n) (h' : n < 0x110000) (bs : List Byte) :
    newString (.ofNat 8 (0xF0 + n / 262144) ::
        ([.ofNat 8 (0x80 + n / 4096 % 64), .ofNat 8 (0x80 + n / 64 % 64), .ofNat 8 (0x80 + n % 64)] ++ bs)) =
      unitsOf n ++ newString bs := by
  have h₀ := toNat_byte (k := 0xF0 + n / 262144) (by omega)
  have h₁ := toNat_byte (k := 0x80 + n / 4096 % 64) (by omega)
  have h₂ := toNat_byte (k := 0x80 + n / 64 % 64) (by omega)
  have h₃ := toNat_byte (k := 0x80 + n % 64) (by omega)
  -- behind `F0` the second byte has to be `90` at least, behind `F4` `8F` at most
  obtain ⟨lo, hi, hl, hr⟩ : ∃ lo hi, lead (.ofNat 8 (0xF0 + n / 262144)) = some (3, lo, hi) ∧
      lo ≤ 0x80 + n / 4096 % 64 ∧ 0x80 + n / 4096 % 64 ≤ hi := by
    unfold lead
    dsimp only
    rw [h₀, if_neg (by omega), if_neg (by omega), if_neg (by omega), if_neg (by omega)]
    by_cases hz : n < 262144
    · rw [if_pos (by omega)]
      exact ⟨0x90, 0xBF, rfl, by omega, by omega⟩
    · rw [if_neg (by omega)]
      by_cases hm : n < 4 * 262144
      · rw [if_pos (by omega)]
        exact ⟨0x80, 0xBF, rfl, by omega, by omega⟩
      · rw [if_neg (by omega), if_pos (by omega)]
        exact ⟨0x80, 0x8F, rfl, by omega, by omega⟩
  rw [newString_sequence (by omega) hl]
  · congr 2
    simp only [decodePoint, List.foldl, List.length_cons, List.length_nil, h₀, h₁, h₂, h₃]
    omega
  · rw [List.length_cons, List.length_cons, List.length_singleton, List.cons_append, List.cons_append,
      List.singleton_append, tails_cons (by omega), tails_cons (by omega), tails_cons (by omega), tails_zero]

/-- The bytes of a code point are read as its units. -/
theorem newString_encodePoint {n : Nat} (h : n < 0x110000) (bs : List Byte) :
    newString (encodePoint n ++ bs) = unitsOf n ++ newString bs := by
  unfold encodePoint
  split
  · have hn := toNat_byte (k := n) (by omega)
    rw [List.singleton_append, newString_cons_of_lt (by omega), hn, unitsOf, if_neg (by omega), if_pos (by omega)]
    rfl
  · split
    · exact newString_two (by omega) (by omega) bs
    · split
      · exact newString_three (by omega) (by omega) bs
      · exact newString_four (by omega) h bs

/-! ## Strings -/

theorem unitsOf_toNat {u : CodeUnit} (hh : isHigh u = false) (hl : isLow u = false) : unitsOf u.toNat = [u] := by
  have hu := u.isLt
  simp only [isHigh, isLow, Bool.and_eq_false_iff, decide_eq_false_iff_not] at hh hl
  rw [unitsOf, if_neg (by omega), if_pos (by omega), BitVec.ofNat_toNat, BitVec.setWidth_eq]

theorem unitsOf_ofPair {u v : CodeUnit} (hu : isHigh u = true) (hv : isLow v = true) : unitsOf (ofPair u v) = [u, v] := by
  simp only [isHigh, isLow, Bool.and_eq_true, decide_eq_true_eq] at hu hv
  have hfirst : 0xD800 + (ofPair u v - 0x10000) / 0x400 = u.toNat := by
    unfold ofPair
    omega
  have hsecond : 0xDC00 + ofPair u v % 0x400 = v.toNat := by
    unfold ofPair
    omega
  rw [unitsOf, if_neg (by unfold ofPair; omega), if_neg (by unfold ofPair; omega), hfirst, hsecond, BitVec.ofNat_toNat,
    BitVec.ofNat_toNat, BitVec.setWidth_eq, BitVec.setWidth_eq]

theorem newString_encodeUnit (u : CodeUnit) (bs : List Byte) : newString (encodeUnit u ++ bs) = kept u :: newString bs := by
  rw [encodeUnit, kept]
  split
  · exact newString_cons_of_lt (by decide) bs
  · rename_i h
    rw [Bool.or_eq_true, not_or, Bool.not_eq_true, Bool.not_eq_true] at h
    rw [newString_encodePoint (by have := u.isLt; omega), unitsOf_toNat h.1 h.2]
    rfl

/-- What is read of a string that has been written. -/
theorem newString_getBytes (s : List CodeUnit) (bs : List Byte) : newString (getBytes s ++ bs) = transcoded s ++ newString bs := by
  induction s using getBytes.induct with
  | case1 => rfl
  | case2 u => exact newString_encodeUnit u bs
  | case3 u v s h ih =>
    have hp := Bool.and_eq_true_iff.mp h
    rw [getBytes, transcoded, if_pos h, if_pos h, List.append_assoc, newString_encodePoint (ofPair_range hp.1 hp.2).2,
      unitsOf_ofPair hp.1 hp.2, ih]
    rfl
  | case4 u v s h ih =>
    rw [getBytes, transcoded, if_neg h, if_neg h, List.append_assoc, newString_encodeUnit, ih]
    rfl

theorem length_transcoded (s : List CodeUnit) : (transcoded s).length = s.length := by
  induction s using transcoded.induct with
  | case1 => rfl
  | case2 u => rfl
  | case3 u v s h ih => rw [transcoded, if_pos h, List.length_cons, List.length_cons, ih]; rfl
  | case4 u v s h ih => rw [transcoded, if_neg h, List.length_cons, ih]; rfl

theorem not_surrogate_of_ascii {u : CodeUnit} (h : u.toNat < 0x80) : isHigh u = false ∧ isLow u = false := by
  constructor
  · simp [isHigh]; omega
  · simp [isLow]; omega

theorem kept_eq {u : CodeUnit} (hh : isHigh u = false) (hl : isLow u = false) : kept u = u := by
  rw [kept, hh, hl]
  rfl

theorem transcoded_cons {u : CodeUnit} (h : isHigh u = false) (s : List CodeUnit) :
    transcoded (u :: s) = kept u :: transcoded s := by
  cases s with
  | nil => rfl
  | cons v s => rw [transcoded, h, Bool.false_and, if_neg Bool.false_ne_true]

/-- An ASCII unit belongs to no pair. -/
theorem transcoded_append {u : CodeUnit} (h : u.toNat < 0x80) (s t : List CodeUnit) :
    transcoded (s ++ u :: t) = transcoded s ++ u :: transcoded t := by
  obtain ⟨hh, hl⟩ := not_surrogate_of_ascii h
  have hu : transcoded (u :: t) = u :: transcoded t := by rw [transcoded_cons hh, kept_eq hh hl]
  induction s using transcoded.induct with
  | case1 => exact hu
  | case2 x =>
    show transcoded (x :: u :: t) = kept x :: u :: transcoded t
    rw [transcoded, hl, Bool.and_false, if_neg Bool.false_ne_true, hu]
  | case3 x y s hp ih =>
    show transcoded (x :: y :: (s ++ u :: t)) = _
    rw [transcoded, transcoded, if_pos hp, if_pos hp, ih]
    rfl
  | case4 x y s hp ih =>
    show transcoded (x :: y :: (s ++ u :: t)) = _
    rw [transcoded, transcoded, if_neg hp, if_neg hp]
    exact congrArg (kept x :: ·) ih

theorem transcoded_ascii_append {s : List CodeUnit} (h : Ascii s) (t : List CodeUnit) : transcoded (s ++ t) = s ++ transcoded t := by
  induction s with
  | nil => rfl
  | cons u s ih =>
    obtain ⟨hh, hl⟩ := not_surrogate_of_ascii (h u List.mem_cons_self)
    rw [List.cons_append, transcoded_cons hh, kept_eq hh hl, ih fun v hv => h v (List.mem_cons_of_mem u hv)]
    rfl

theorem transcoded_ascii {s : List CodeUnit} (h : Ascii s) : transcoded s = s := by
  have := transcoded_ascii_append h []
  rwa [List.append_nil, transcoded, List.append_nil] at this

/-- All surrogates are paired. -/
inductive Paired : List CodeUnit → Prop where
  | nil : Paired []
  | one {u : CodeUnit} {s : List CodeUnit} : isHigh u = false → isLow u = false → Paired s → Paired (u :: s)
  | pair {u v : CodeUnit} {s : List CodeUnit} : isHigh u = true → isLow v = true → Paired s → Paired (u :: v :: s)

/-- A unit that is read as it is, is not a surrogate. -/
theorem not_surrogate_of_kept {u : CodeUnit} (h : kept u = u) : isHigh u = false ∧ isLow u = false := by
  rw [kept] at h
  split at h
  · rw [← h]
    decide
  · rename_i hn
    rwa [Bool.or_eq_true, not_or, Bool.not_eq_true, Bool.not_eq_true] at hn

/-- Read as it is, a string has no surrogate without a partner. -/
theorem transcoded_eq_iff (s : List CodeUnit) : transcoded s = s ↔ Paired s := by
  constructor
  · intro h
    induction s using transcoded.induct with
    | case1 => exact .nil
    | case2 u =>
      obtain ⟨hh, hl⟩ := not_surrogate_of_kept (List.head_eq_of_cons_eq h)
      exact .one hh hl .nil
    | case3 u v s hp ih =>
      rw [transcoded, if_pos hp] at h
      have hp' := Bool.and_eq_true_iff.mp hp
      exact .pair hp'.1 hp'.2 (ih (List.tail_eq_of_cons_eq (List.tail_eq_of_cons_eq h)))
    | case4 u v s hp ih =>
      rw [transcoded, if_neg hp] at h
      obtain ⟨hh, hl⟩ := not_surrogate_of_kept (List.head_eq_of_cons_eq h)
      exact .one hh hl (ih (List.tail_eq_of_cons_eq h))
  · intro h
    induction h with
    | nil => rfl
    | one hh hl _ ih => rw [transcoded_cons hh, kept_eq hh hl, ih]
    | pair hu hv _ ih => rw [transcoded, if_pos (by rw [hu, hv]; rfl), ih]

end XH.Utf8
