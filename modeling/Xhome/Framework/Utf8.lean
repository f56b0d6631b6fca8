import Mathlib.Data.List.Basic
import Xhome.Framework.Word

/-!
# UTF-16 strings as UTF-8 bytes

A string is a list of 16-bit code units. `getBytes` writes it as UTF-8, with
`?` for a surrogate that has no partner, and `newString` reads UTF-8, with
U+FFFD for every malformed sequence: a lead byte and the bytes behind it that
could still have continued it.

* `getBytes_of_ascii`, `newString_of_ascii`: ASCII has one byte for each unit;
* `newString_eq_map`: a string with as many units as bytes came from bytes
  that were read one by one;
* `ascii_getBytes_newString`: bytes read and written again have as many ASCII
  bytes as before.
-/

namespace XH

abbrev CodeUnit := BitVec 16

namespace Utf8

/-- A unit of the first half of a pair. -/
def isHigh (u : CodeUnit) : Bool := 0xD800 ≤ u.toNat && u.toNat < 0xDC00

/-- A unit of the second half of a pair. -/
def isLow (u : CodeUnit) : Bool := 0xDC00 ≤ u.toNat && u.toNat < 0xE000

/-- The code point of a pair. -/
def ofPair (u v : CodeUnit) : Nat := 0x10000 + (u.toNat - 0xD800) * 0x400 + (v.toNat - 0xDC00)

/-- The bytes of a code point. -/
def encodePoint (n : Nat) : List Byte :=
  if n < 0x80 then [.ofNat 8 n]
  else if n < 0x800 then [.ofNat 8 (0xC0 + n / 64), .ofNat 8 (0x80 + n % 64)]
  else if n < 0x10000 then
    [.ofNat 8 (0xE0 + n / 4096), .ofNat 8 (0x80 + n / 64 % 64), .ofNat 8 (0x80 + n % 64)]
  else
    [.ofNat 8 (0xF0 + n / 262144), .ofNat 8 (0x80 + n / 4096 % 64), .ofNat 8 (0x80 + n / 64 % 64),
      .ofNat 8 (0x80 + n % 64)]

/-- The bytes of a unit that is not the first of a pair. -/
def encodeUnit (u : CodeUnit) : List Byte := if isHigh u || isLow u then [0x3F] else encodePoint u.toNat

def getBytes : List CodeUnit → List Byte
  | [] => []
  | [u] => encodeUnit u
  | u :: v :: s =>
    if isHigh u && isLow v then encodePoint (ofPair u v) ++ getBytes s else encodeUnit u ++ getBytes (v :: s)

/-- What a lead byte announces: how many bytes follow, and the least and the
greatest one that may come next. -/
def lead (b : Byte) : Option (Nat × Nat × Nat) :=
  let n := b.toNat
  if n < 0xC2 then none
  else if n < 0xE0 then some (1, 0x80, 0xBF)
  else if n = 0xE0 then some (2, 0xA0, 0xBF)
  else if n < 0xF0 then some (2, 0x80, 0xBF)
  else if n = 0xF0 then some (3, 0x90, 0xBF)
  else if n < 0xF4 then some (3, 0x80, 0xBF)
  else if n = 0xF4 then some (3, 0x80, 0x8F)
  else none

/-- The bytes that continue a sequence, at most `k` of them. -/
def tails : Nat → Nat → Nat → List Byte → List Byte
  | k + 1, lo, hi, b :: bs => if lo ≤ b.toNat ∧ b.toNat ≤ hi then b :: tails k 0x80 0xBF bs else []
  | _, _, _, _ => []

/-- The code point of a lead byte with `n` bytes behind it. -/
def decodePoint (b : Byte) (ts : List Byte) : Nat :=
  ts.foldl (fun n t => n * 64 + t.toNat % 64) (b.toNat % 2 ^ (6 - ts.length))

def replacement : CodeUnit := 0xFFFD

/-- The units of a code point; a surrogate is malformed. -/
def unitsOf (n : Nat) : List CodeUnit :=
  if 0xD800 ≤ n ∧ n < 0xE000 then [replacement]
  else if n < 0x10000 then [.ofNat 16 n]
  else [.ofNat 16 (0xD800 + (n - 0x10000) / 0x400), .ofNat 16 (0xDC00 + n % 0x400)]

/-- The units read at a byte, and how many of the bytes behind it belong to
them. -/
def decodeAt (b : Byte) (bs : List Byte) : List CodeUnit × Nat :=
  if b.toNat < 0x80 then ([.ofNat 16 b.toNat], 0)
  else match lead b with
    | none => ([replacement], 0)
    | some (n, lo, hi) =>
      let ts := tails n lo hi bs
      if ts.length = n then (unitsOf (decodePoint b ts), n) else ([replacement], ts.length)

/-- The units of the bytes behind the first `k`. -/
def decodeFrom : Nat → List Byte → List CodeUnit
  | _, [] => []
  | k + 1, _ :: bs => decodeFrom k bs
  | 0, b :: bs => (decodeAt b bs).1 ++ decodeFrom (decodeAt b bs).2 bs

def newString (bs : List Byte) : List CodeUnit := decodeFrom 0 bs

/-! ## ASCII -/

/-- All units are ASCII. -/
def Ascii (s : List CodeUnit) : Prop := ∀ u ∈ s, u.toNat < 0x80

instance (s : List CodeUnit) : Decidable (Ascii s) := inferInstanceAs (Decidable (∀ u ∈ s, u.toNat < 0x80))

theorem encodeUnit_of_ascii {u : CodeUnit} (h : u.toNat < 0x80) : encodeUnit u = [.ofNat 8 u.toNat] := by
  have hh : isHigh u = false := by simp [isHigh]; omega
  have hl : isLow u = false := by simp [isLow]; omega
  rw [encodeUnit, hh, hl, encodePoint, if_pos h]
  rfl

/-- A unit that starts no pair is written alone. -/
theorem getBytes_cons {u : CodeUnit} (h : isHigh u = false) (s : List CodeUnit) :
    getBytes (u :: s) = encodeUnit u ++ getBytes s := by
  cases s with
  | nil => rw [getBytes, getBytes, List.append_nil]
  | cons v s => rw [getBytes, h, Bool.false_and, if_neg Bool.false_ne_true]

theorem getBytes_of_ascii {s : List CodeUnit} (h : Ascii s) (t : List CodeUnit) :
    getBytes (s ++ t) = (s.map fun u => .ofNat 8 u.toNat) ++ getBytes t := by
  induction s with
  | nil => rfl
  | cons u s ih =>
    have hu : u.toNat < 0x80 := h u List.mem_cons_self
    have hh : isHigh u = false := by simp [isHigh]; omega
    rw [List.cons_append, getBytes_cons hh, encodeUnit_of_ascii hu, ih fun v hv => h v (List.mem_cons_of_mem u hv)]
    rfl

theorem ofPair_range {u v : CodeUnit} (hu : isHigh u = true) (hv : isLow v = true) :
    0x80 ≤ ofPair u v ∧ ofPair u v < 0x110000 := by
  simp only [isHigh, isLow, Bool.and_eq_true, decide_eq_true_eq] at hu hv
  unfold ofPair
  generalize u.toNat = a at hu
  generalize v.toNat = b at hv
  omega

/-- A string has at least as many bytes as units. -/
theorem length_le_getBytes (s : List CodeUnit) : s.length ≤ (getBytes s).length := by
  have hp : ∀ n, 1 ≤ (encodePoint n).length := by
    intro n
    unfold encodePoint
    repeat' split
    all_goals simp only [List.length_cons, List.length_nil]; omega
  have hp2 : ∀ n, 0x80 ≤ n → 2 ≤ (encodePoint n).length := by
    intro n h
    rw [encodePoint, if_neg (by omega)]
    repeat' split
    all_goals simp only [List.length_cons, List.length_nil]; omega
  have hu : ∀ u, 1 ≤ (encodeUnit u).length := by
    intro u
    unfold encodeUnit
    split
    · exact Nat.le_refl 1
    · exact hp u.toNat
  induction s using getBytes.induct with
  | case1 => exact Nat.le_refl 0
  | case2 u => exact hu u
  | case3 u v s h ih =>
    rw [Bool.and_eq_true] at h
    have h2 := hp2 _ (ofPair_range h.1 h.2).1
    rw [← Bool.and_eq_true] at h
    rw [getBytes, if_pos h, List.length_append, List.length_cons, List.length_cons]
    omega
  | case4 u v s h ih =>
    have := hu u
    rw [getBytes, if_neg h, List.length_append, List.length_cons]
    omega

theorem decodeAt_of_lt {b : Byte} (h : b.toNat < 0x80) (bs : List Byte) :
    decodeAt b bs = ([.ofNat 16 b.toNat], 0) := by
  rw [decodeAt, if_pos h]

theorem newString_cons_of_lt {b : Byte} (h : b.toNat < 0x80) (bs : List Byte) :
    newString (b :: bs) = .ofNat 16 b.toNat :: newString bs := by
  rw [newString, decodeFrom, decodeAt_of_lt h]
  rfl

theorem newString_of_ascii {s : List CodeUnit} (h : Ascii s) (bs : List Byte) :
    newString ((s.map fun u => .ofNat 8 u.toNat) ++ bs) = s ++ newString bs := by
  induction s with
  | nil => rfl
  | cons u s ih =>
    have hu : u.toNat < 0x80 := h u List.mem_cons_self
    have hb : (BitVec.ofNat 8 u.toNat).toNat = u.toNat := by
      rw [BitVec.toNat_ofNat, Nat.mod_eq_of_lt (by omega)]
    rw [List.map_cons, List.cons_append, newString_cons_of_lt (by omega), hb, BitVec.ofNat_toNat,
      BitVec.setWidth_eq, ih fun v hv => h v (List.mem_cons_of_mem u hv)]
    rfl

/-- An ASCII byte is written back. -/
theorem getBytes_newString_cons {b : Byte} (h : b.toNat < 0x80) (bs : List Byte) :
    getBytes (newString (b :: bs)) = b :: getBytes (newString bs) := by
  have hu : (BitVec.ofNat 16 b.toNat).toNat = b.toNat := by rw [BitVec.toNat_ofNat, Nat.mod_eq_of_lt (by omega)]
  have hh : isHigh (.ofNat 16 b.toNat) = false := by simp [isHigh]; omega
  rw [newString_cons_of_lt h, getBytes_cons hh, encodeUnit_of_ascii (by rwa [hu]), hu, BitVec.ofNat_toNat,
    BitVec.setWidth_eq]
  rfl

/-- ASCII bytes are written back as they were read. -/
theorem getBytes_newString_of_ascii {bs : List Byte} (h : ∀ b ∈ bs, b.toNat < 0x80) :
    getBytes (newString bs) = bs ∧ (newString bs).length = bs.length := by
  induction bs with
  | nil => exact ⟨rfl, rfl⟩
  | cons b bs ih =>
    have hb := h b List.mem_cons_self
    obtain ⟨h₁, h₂⟩ := ih fun b' hb' => h b' (List.mem_cons_of_mem b hb')
    refine ⟨?_, ?_⟩
    · rw [getBytes_newString_cons hb, h₁]
    · rw [newString_cons_of_lt hb, List.length_cons, List.length_cons, h₂]

/-! ## Units and bytes -/

/-- A byte read by itself. -/
def byteUnit (b : Byte) : CodeUnit := if b.toNat < 0x80 then .ofNat 16 b.toNat else replacement

theorem length_tails_le (k lo hi : Nat) (bs : List Byte) :
    (tails k lo hi bs).length ≤ k ∧ (tails k lo hi bs).length ≤ bs.length := by
  induction bs generalizing k lo hi with
  | nil => cases k <;> exact ⟨Nat.zero_le _, Nat.zero_le _⟩
  | cons b bs ih =>
    cases k with
    | zero => exact ⟨Nat.zero_le _, Nat.zero_le _⟩
    | succ k =>
      rw [tails]
      split
      · have hk := ih k 0x80 0xBF
        simp only [List.length_cons]
        omega
      · exact ⟨Nat.zero_le _, Nat.zero_le _⟩

theorem length_unitsOf_le (n : Nat) : (unitsOf n).length ≤ 2 := by
  unfold unitsOf
  split
  · exact Nat.le_succ 1
  · split
    · exact Nat.le_succ 1
    · exact Nat.le_refl 2

theorem length_unitsOf {n : Nat} (h : n < 0x10000) : (unitsOf n).length = 1 := by
  rw [unitsOf, if_pos h]
  split <;> rfl

theorem lead_eq {b : Byte} {n lo hi : Nat} (h : lead b = some (n, lo, hi)) : n = 1 ∨ n = 2 ∨ n = 3 := by
  unfold lead at h
  dsimp only at h
  repeat' split at h
  all_goals grind

/-- Two or three bytes make one unit. -/
theorem decodePoint_lt {b : Byte} {ts : List Byte} (h : ts.length = 1 ∨ ts.length = 2) :
    decodePoint b ts < 0x10000 := by
  rcases h with h | h
  · obtain ⟨t, rfl⟩ := List.length_eq_one_iff.mp h
    simp only [decodePoint, List.foldl, List.length_singleton]
    omega
  · obtain ⟨t, t', rfl⟩ := List.length_eq_two.mp h
    simp only [decodePoint, List.foldl, List.length_cons, List.length_nil]
    omega

/-- A sequence has fewer units than bytes, unless it is one byte. -/
theorem decodeAt_units (b : Byte) (bs : List Byte) :
    (decodeAt b bs).2 ≤ bs.length ∧ ((decodeAt b bs).2 = 0 ∧ (decodeAt b bs).1 = [byteUnit b] ∨
      (decodeAt b bs).1.length ≤ (decodeAt b bs).2) := by
  unfold decodeAt
  split
  case isTrue h => exact ⟨Nat.zero_le _, .inl ⟨rfl, by rw [byteUnit, if_pos h]⟩⟩
  case isFalse h =>
    have hr : [replacement] = [byteUnit b] := by rw [byteUnit, if_neg h]
    split
    · exact ⟨Nat.zero_le _, .inl ⟨rfl, hr⟩⟩
    · rename_i n lo hi hl
      have ht : (tails n lo hi bs).length ≤ bs.length := (length_tails_le n lo hi bs).2
      dsimp only
      split
      case isTrue e =>
        refine ⟨e ▸ ht, .inr ?_⟩
        have h₂ := length_unitsOf_le (decodePoint b (tails n lo hi bs))
        rcases lead_eq hl with rfl | rfl | rfl
        · exact Nat.le_of_eq (length_unitsOf (decodePoint_lt (.inl e)))
        · exact h₂
        · exact Nat.le_succ_of_le h₂
      case isFalse e =>
        refine ⟨ht, ?_⟩
        rcases Nat.eq_zero_or_pos (tails n lo hi bs).length with h0 | hpos
        · exact .inl ⟨h0, hr⟩
        · exact .inr hpos

theorem length_decodeFrom_le (k : Nat) (bs : List Byte) : (decodeFrom k bs).length ≤ bs.length - k := by
  induction bs generalizing k with
  | nil => cases k <;> exact Nat.zero_le _
  | cons b bs ih =>
    cases k with
    | zero =>
      obtain ⟨hk, h⟩ := decodeAt_units b bs
      have hi := ih (decodeAt b bs).2
      rw [decodeFrom, List.length_append, List.length_cons]
      rcases h with ⟨h0, h⟩ | h
      · rw [h, List.length_singleton]; omega
      · omega
    | succ k =>
      rw [decodeFrom, List.length_cons, Nat.add_sub_add_right]
      exact ih k

/-- As many units as bytes: each byte was read by itself. -/
theorem newString_eq_map {bs : List Byte} (h : (newString bs).length = bs.length) :
    newString bs = bs.map byteUnit := by
  induction bs with
  | nil => rfl
  | cons b bs ih =>
    obtain ⟨hk, hu⟩ := decodeAt_units b bs
    have hl := length_decodeFrom_le (decodeAt b bs).2 bs
    rw [newString, decodeFrom, List.length_append, List.length_cons] at h
    rcases hu with ⟨h0, hu⟩ | hu
    · rw [hu, h0, List.length_singleton] at h
      rw [newString, decodeFrom, hu, h0, List.map_cons, ← ih (by rw [newString]; omega)]
      rfl
    · omega

/-- Bytes of which two make a sequence have fewer units. -/
theorem length_newString_lt {b : Byte} {bs : List Byte} (h : (decodeAt b bs).2 ≠ 0) :
    (newString (b :: bs)).length < bs.length + 1 := by
  obtain ⟨hk, hu⟩ := decodeAt_units b bs
  have hl := length_decodeFrom_le (decodeAt b bs).2 bs
  rw [newString, decodeFrom, List.length_append]
  rcases hu with ⟨h0, -⟩ | hu
  · exact absurd h0 h
  · omega

/-! ## Reading keeps the ASCII bytes -/

/-- How many of the bytes are ASCII. -/
def ascii (bs : List Byte) : Nat := bs.countP fun b => b.toNat < 0x80

theorem ascii_append (bs cs : List Byte) : ascii (bs ++ cs) = ascii bs + ascii cs := List.countP_append

theorem ascii_cons_of_lt {b : Byte} (h : b.toNat < 0x80) (bs : List Byte) : ascii (b :: bs) = ascii bs + 1 :=
  List.countP_cons_of_pos (decide_eq_true h)

theorem ascii_cons_of_le {b : Byte} (h : 0x80 ≤ b.toNat) (bs : List Byte) : ascii (b :: bs) = ascii bs :=
  List.countP_cons_of_neg (by simp only [decide_eq_true_eq]; omega)

theorem ascii_le_length (bs : List Byte) : ascii bs ≤ bs.length := List.countP_le_length

theorem tails_take (k lo hi : Nat) (bs : List Byte) : bs.take (tails k lo hi bs).length = tails k lo hi bs := by
  induction bs generalizing k lo hi with
  | nil => cases k <;> rfl
  | cons b bs ih =>
    cases k with
    | zero => rfl
    | succ k =>
      rw [tails]
      split
      · rw [List.length_cons, List.take_succ_cons, ih]
      · rfl

theorem tails_mem {k lo hi : Nat} (hlo : 0x80 ≤ lo) {bs : List Byte} {t : Byte} (h : t ∈ tails k lo hi bs) :
    0x80 ≤ t.toNat := by
  induction bs generalizing k lo hi with
  | nil => cases k <;> cases h
  | cons b bs ih =>
    cases k with
    | zero => cases h
    | succ k =>
      rw [tails] at h
      split at h
      · rename_i hb
        rcases List.mem_cons.mp h with rfl | h
        · omega
        · exact ih (Nat.le_refl _) h
      · cases h

/-- The bytes that continue a sequence are not ASCII. -/
theorem ascii_drop_tails {k lo hi : Nat} (hlo : 0x80 ≤ lo) (bs : List Byte) :
    ascii (bs.drop (tails k lo hi bs).length) = ascii bs := by
  have h0 : ascii (tails k lo hi bs) = 0 := by
    rw [ascii, List.countP_eq_zero]
    intro t ht
    have h := tails_mem hlo ht
    simp only [decide_eq_true_eq]
    omega
  conv_rhs => rw [← List.take_append_drop (tails k lo hi bs).length bs]
  rw [ascii_append, tails_take, h0, Nat.zero_add]

/-- The first byte behind the lead byte is in its range. -/
theorem tails_head {k lo hi : Nat} {bs ts : List Byte} {t : Byte} (h : tails (k + 1) lo hi bs = t :: ts) :
    lo ≤ t.toNat ∧ t.toNat ≤ hi := by
  cases bs with
  | nil => cases h
  | cons b bs =>
    rw [tails] at h
    split at h
    · rename_i hb
      exact (List.cons.inj h).1 ▸ hb
    · cases h

/-- What is read at a byte that is not ASCII: one unit that is neither ASCII
nor a surrogate, or a pair. -/
inductive Read : List CodeUnit → Prop where
  | one {u : CodeUnit} : 0x80 ≤ u.toNat → isHigh u = false → isLow u = false → Read [u]
  | pair {u v : CodeUnit} : isHigh u = true → isLow v = true → Read [u, v]

theorem Read.replacement : Read [replacement] := .one (by decide) (by decide) (by decide)

theorem read_unitsOf {n : Nat} (h : 0x80 ≤ n) (hn : n < 0x110000) : Read (unitsOf n) := by
  unfold unitsOf
  split
  · exact .replacement
  · split
    · have e : (BitVec.ofNat 16 n).toNat = n := by rw [BitVec.toNat_ofNat, Nat.mod_eq_of_lt (by omega)]
      exact .one (by omega) (by simp only [isHigh, e]; grind) (by simp only [isLow, e]; grind)
    · have e : (BitVec.ofNat 16 (0xD800 + (n - 0x10000) / 0x400)).toNat = 0xD800 + (n - 0x10000) / 0x400 := by
        rw [BitVec.toNat_ofNat, Nat.mod_eq_of_lt (by omega)]
      have e' : (BitVec.ofNat 16 (0xDC00 + n % 0x400)).toNat = 0xDC00 + n % 0x400 := by
        rw [BitVec.toNat_ofNat, Nat.mod_eq_of_lt (by omega)]
      refine .pair ?_ ?_
      · rw [isHigh, e, Bool.and_eq_true, decide_eq_true_eq, decide_eq_true_eq]
        omega
      · rw [isLow, e', Bool.and_eq_true, decide_eq_true_eq, decide_eq_true_eq]
        omega

/-- A complete sequence is the shortest one for its code point. -/
theorem decodePoint_range {b : Byte} {n lo hi : Nat} {bs : List Byte} (hl : lead b = some (n, lo, hi))
    (e : (tails n lo hi bs).length = n) :
    0x80 ≤ decodePoint b (tails n lo hi bs) ∧ decodePoint b (tails n lo hi bs) < 0x110000 := by
  have hb : b.toNat < 256 := b.isLt
  unfold lead at hl
  dsimp only at hl
  generalize ht : tails n lo hi bs = ts at e
  rcases lead_eq (b := b) hl with rfl | rfl | rfl
  · obtain ⟨t, rfl⟩ := List.length_eq_one_iff.mp e
    simp only [decodePoint, List.foldl, List.length_singleton]
    repeat' split at hl
    all_goals first | (cases hl; done) | (simp only [Option.some.injEq, Prod.mk.injEq] at hl; omega)
  · obtain ⟨t, t', rfl⟩ := List.length_eq_two.mp e
    obtain ⟨h₁, h₂⟩ := tails_head ht
    simp only [decodePoint, List.foldl, List.length_cons, List.length_nil]
    repeat' split at hl
    all_goals first | (cases hl; done) | (simp only [Option.some.injEq, Prod.mk.injEq] at hl; omega)
  · obtain ⟨t, t', t'', rfl⟩ := List.length_eq_three.mp e
    obtain ⟨h₁, h₂⟩ := tails_head ht
    simp only [decodePoint, List.foldl, List.length_cons, List.length_nil]
    repeat' split at hl
    all_goals first | (cases hl; done) | (simp only [Option.some.injEq, Prod.mk.injEq] at hl; omega)

theorem lead_lo {b : Byte} {n lo hi : Nat} (h : lead b = some (n, lo, hi)) : 0x80 ≤ lo := by
  unfold lead at h
  dsimp only at h
  repeat' split at h
  all_goals grind

theorem decodeAt_read {b : Byte} (h : 0x80 ≤ b.toNat) (bs : List Byte) :
    Read (decodeAt b bs).1 ∧ ascii (bs.drop (decodeAt b bs).2) = ascii bs := by
  rw [decodeAt, if_neg (by omega)]
  split
  · exact ⟨.replacement, rfl⟩
  · rename_i n lo hi hl
    have ht := @ascii_drop_tails n lo hi (lead_lo hl) bs
    dsimp only
    split
    · rename_i e
      obtain ⟨h₁, h₂⟩ := decodePoint_range hl e
      exact ⟨read_unitsOf h₁ h₂, e ▸ ht⟩
    · exact ⟨.replacement, ht⟩

theorem ascii_encodePoint {n : Nat} (h : 0x80 ≤ n) (hn : n < 0x110000) : ascii (encodePoint n) = 0 := by
  have hb : ∀ k, 0x80 ≤ k → k < 0x100 → 0x80 ≤ (BitVec.ofNat 8 k).toNat := fun k h₁ h₂ => by
    rw [BitVec.toNat_ofNat, Nat.mod_eq_of_lt (by omega)]
    exact h₁
  unfold encodePoint
  rw [if_neg (by omega)]
  split
  · rw [ascii_cons_of_le (hb _ (by omega) (by omega)), ascii_cons_of_le (hb _ (by omega) (by omega))]
    rfl
  · split
    · rw [ascii_cons_of_le (hb _ (by omega) (by omega)), ascii_cons_of_le (hb _ (by omega) (by omega)),
        ascii_cons_of_le (hb _ (by omega) (by omega))]
      rfl
    · rw [ascii_cons_of_le (hb _ (by omega) (by omega)), ascii_cons_of_le (hb _ (by omega) (by omega)),
        ascii_cons_of_le (hb _ (by omega) (by omega)), ascii_cons_of_le (hb _ (by omega) (by omega))]
      rfl

theorem Read.ascii_getBytes {us : List CodeUnit} (h : Read us) (s : List CodeUnit) :
    ascii (getBytes (us ++ s)) = ascii (getBytes s) := by
  cases h with
  | @one u hu hh hl =>
    rw [List.singleton_append, getBytes_cons hh, ascii_append, encodeUnit, hh, hl]
    show ascii (encodePoint u.toNat) + _ = _
    rw [ascii_encodePoint hu (by have := u.isLt; omega), Nat.zero_add]
  | @pair u v hu hv =>
    have e : getBytes ([u, v] ++ s) = encodePoint (ofPair u v) ++ getBytes s := by
      show getBytes (u :: v :: s) = _
      rw [getBytes, hu, hv]
      rfl
    obtain ⟨h₁, h₂⟩ := ofPair_range hu hv
    rw [e, ascii_append, ascii_encodePoint h₁ h₂, Nat.zero_add]

theorem ascii_getBytes_decodeFrom (k : Nat) (bs : List Byte) :
    ascii (getBytes (decodeFrom k bs)) = ascii (bs.drop k) := by
  induction bs generalizing k with
  | nil => cases k <;> rfl
  | cons b bs ih =>
    cases k with
    | zero =>
      rw [decodeFrom, List.drop_zero]
      rcases Nat.lt_or_ge b.toNat 0x80 with h | h
      · have hu : (BitVec.ofNat 16 b.toNat).toNat = b.toNat := by
          rw [BitVec.toNat_ofNat, Nat.mod_eq_of_lt (by omega)]
        have hh : isHigh (.ofNat 16 b.toNat) = false := by simp [isHigh]; omega
        have hb : BitVec.ofNat 8 (BitVec.ofNat 16 b.toNat).toNat = b := by
          rw [hu, BitVec.ofNat_toNat, BitVec.setWidth_eq]
        rw [decodeAt_of_lt h, List.singleton_append, getBytes_cons hh, encodeUnit_of_ascii (by omega), hb,
          List.singleton_append, ascii_cons_of_lt h, ascii_cons_of_lt h, ih, List.drop_zero]
      · obtain ⟨hr, hd⟩ := decodeAt_read h bs
        rw [hr.ascii_getBytes, ih, hd, ascii_cons_of_le h]
    | succ k =>
      rw [decodeFrom, List.drop_succ_cons]
      exact ih k

theorem ascii_getBytes_newString (bs : List Byte) : ascii (getBytes (newString bs)) = ascii bs :=
  ascii_getBytes_decodeFrom 0 bs

end Utf8

end XH
