import Xhome.Framework.Word

/-!
# Byte memory

A memory gives a byte for each offset. `store` writes bytes one behind the
other and `load` reads them back; a store leaves what lies outside of it.
`Laid` says that records lie one behind the other between two offsets, each
followed by `gap` bytes.
-/

namespace XH

abbrev Mem := Nat → Byte

namespace Mem

variable {m : Mem} {p q n : Nat} {bs : List Byte}

/-- The bytes from `p` on. -/
def load (m : Mem) (p n : Nat) : List Byte := (List.range n).map fun i => m (p + i)

/-- `memcpy(p, bs, bs.length)` -/
def store (m : Mem) (p : Nat) (bs : List Byte) : Mem := fun i =>
  if p ≤ i then (bs[i - p]?).getD (m i) else m i

@[simp] theorem length_load (m : Mem) (p n : Nat) : (m.load p n).length = n := by simp [load]

theorem load_congr {m' : Mem} (h : ∀ i, p ≤ i → i < p + n → m i = m' i) : m.load p n = m'.load p n :=
  List.map_congr_left fun i hi => h _ (Nat.le_add_right p i) (by rw [List.mem_range] at hi; omega)

theorem load_append (m : Mem) (p n k : Nat) : m.load p (n + k) = m.load p n ++ m.load (p + n) k := by
  simp only [load, List.range_add, List.map_append, List.map_map]
  congr 1
  exact List.map_congr_left fun i _ => by simp only [Function.comp_apply, Nat.add_assoc]

theorem store_outside {i : Nat} (h : i < p ∨ p + bs.length ≤ i) : m.store p bs i = m i := by
  rw [store]
  split
  · rw [List.getElem?_eq_none (by omega), Option.getD_none]
  · rfl

/-- What does not meet a store is as it was. -/
theorem load_store_outside (h : p + n ≤ q ∨ q + bs.length ≤ p) : (m.store q bs).load p n = m.load p n :=
  load_congr fun i h₁ h₂ => store_outside (by omega)

theorem load_store (m : Mem) (p : Nat) (bs : List Byte) : (m.store p bs).load p bs.length = bs := by
  apply List.ext_getElem?
  intro i
  rcases Nat.lt_or_ge i bs.length with h | h
  · rw [load, List.getElem?_map, List.getElem?_range h, Option.map_some, store, if_pos (Nat.le_add_right p i),
      Nat.add_sub_cancel_left, List.getElem?_eq_getElem h, Option.getD_some]
  · rw [List.getElem?_eq_none (by rwa [length_load]), List.getElem?_eq_none h]

/-- Two stores one behind the other are one. -/
theorem store_store (m : Mem) (p : Nat) (bs cs : List Byte) :
    (m.store p bs).store (p + bs.length) cs = m.store p (bs ++ cs) := by
  funext i
  rcases Nat.lt_or_ge i (p + bs.length) with h | h
  · rw [store_outside (.inl h)]
    simp only [store]
    split
    · rw [List.getElem?_append_left (by omega)]
    · rfl
  · simp only [store, if_pos h, if_pos (Nat.le_trans (Nat.le_add_right p _) h)]
    have hn : bs[i - p]? = none := List.getElem?_eq_none (by omega)
    rw [List.getElem?_append_right (by omega), hn, Option.getD_none, Nat.sub_add_eq]

end Mem

/-! ## Numbers in memory -/

/-- The `k` lowest bytes of a number, the lowest one first. -/
def bytesOf : Nat → Nat → List Byte
  | 0, _ => []
  | k + 1, n => BitVec.ofNat 8 n :: bytesOf k (n / 256)

/-- The number with these bytes. -/
def valueOf : List Byte → Nat
  | [] => 0
  | b :: bs => b.toNat + 256 * valueOf bs

theorem length_bytesOf (k n : Nat) : (bytesOf k n).length = k := by
  induction k generalizing n with
  | zero => rfl
  | succ k ih => rw [bytesOf, List.length_cons, ih]

theorem valueOf_bytesOf (k n : Nat) : valueOf (bytesOf k n) = n % 256 ^ k := by
  induction k generalizing n with
  | zero => rw [bytesOf, valueOf, Nat.pow_zero, Nat.mod_one]
  | succ k ih =>
    have hm : n % (256 * 256 ^ k) = n % 256 + 256 * (n / 256 % 256 ^ k) := Nat.mod_mul
    rw [bytesOf, valueOf, ih, BitVec.toNat_ofNat, show 256 ^ (k + 1) = 256 * 256 ^ k from Nat.pow_succ', hm]

/-- The bytes of a number are the bytes it was read from. -/
theorem bytesOf_valueOf (bs : List Byte) : bytesOf bs.length (valueOf bs) = bs := by
  induction bs with
  | nil => rfl
  | cons b bs ih =>
    have hb := b.isLt
    have hm : BitVec.ofNat 8 (b.toNat + 256 * valueOf bs) = b := by
      apply BitVec.eq_of_toNat_eq
      rw [BitVec.toNat_ofNat]
      omega
    rw [List.length_cons, bytesOf, valueOf, hm, show (b.toNat + 256 * valueOf bs) / 256 = valueOf bs by omega, ih]

theorem valueOf_lt (bs : List Byte) : valueOf bs < 256 ^ bs.length := by
  induction bs with
  | nil => exact Nat.one_pos
  | cons b bs ih =>
    have hb := b.isLt
    rw [valueOf, List.length_cons, Nat.pow_succ]
    omega

/-- A field is read back as it was written. -/
theorem ofNat_valueOf_bytesOf {w k : Nat} (hw : 2 ^ w = 256 ^ k) (v : BitVec w) :
    BitVec.ofNat w (valueOf (bytesOf k v.toNat)) = v := by
  rw [valueOf_bytesOf, ← hw, Nat.mod_eq_of_lt v.isLt, BitVec.ofNat_toNat, BitVec.setWidth_eq]

theorem bytesOf_ofNat_valueOf {w k : Nat} (hw : 2 ^ w = 256 ^ k) {b : List Byte} (hb : b.length = k) :
    bytesOf k (BitVec.ofNat w (valueOf b)).toNat = b := by
  have hv := valueOf_lt b
  rw [hb, ← hw] at hv
  rw [BitVec.toNat_ofNat, Nat.mod_eq_of_lt hv, ← hb]
  exact bytesOf_valueOf b

/-! ## Records -/

section

variable {α : Type} (bytes : α → List Byte) (gap : Nat)

/-- The place a record takes. -/
def span (x : α) : Nat := (bytes x).length + gap

/-- The records lie one behind the other from `p` to `q`. -/
def Laid (m : Mem) (p : Nat) : List α → Nat → Prop
  | [], q => p = q
  | x :: xs, q => m.load p (bytes x).length = bytes x ∧ Laid m (p + span bytes gap x) xs q

variable {bytes gap} {m m' : Mem} {p q : Nat} {x : α} {xs : List α}

theorem Laid.le (h : Laid bytes gap m p xs q) : p ≤ q := by
  induction xs generalizing p with
  | nil => exact Nat.le_of_eq h
  | cons x xs ih => exact Nat.le_trans (Nat.le_add_right _ _) (ih h.2)

/-- The records stay where the memory does. -/
theorem Laid.congr (h : Laid bytes gap m p xs q) (hm : ∀ i, p ≤ i → i < q → m i = m' i) :
    Laid bytes gap m' p xs q := by
  induction xs generalizing p with
  | nil => exact h
  | cons x xs ih =>
    have hle : p + span bytes gap x ≤ q := h.2.le
    rw [span] at hle
    refine ⟨?_, ih h.2 fun i h₁ h₂ => hm i (by omega) h₂⟩
    rw [← Mem.load_congr fun i h₁ h₂ => hm i h₁ (by omega)]
    exact h.1

/-- The first of the records, and the others behind them. -/
theorem Laid.split {ys : List α} (h : Laid bytes gap m p (xs ++ ys) q) :
    ∃ c, Laid bytes gap m p xs c ∧ Laid bytes gap m c ys q := by
  induction xs generalizing p with
  | nil => exact ⟨p, rfl, h⟩
  | cons x xs ih =>
    obtain ⟨c, h₁, h₂⟩ := ih h.2
    exact ⟨c, ⟨h.1, h₁⟩, h₂⟩

/-- Records that end at one offset begin at one. -/
theorem Laid.start_eq {p' : Nat} (h : Laid bytes gap m p xs q) (h' : Laid bytes gap m' p' xs q) : p = p' := by
  induction xs generalizing p p' with
  | nil => exact h.trans h'.symm
  | cons x xs ih => exact Nat.add_right_cancel (ih h.2 h'.2)

/-- A store behind the records adds one. -/
theorem Laid.store (h : Laid bytes gap m p xs q) :
    Laid bytes gap (m.store q (bytes x)) p (xs ++ [x]) (q + span bytes gap x) := by
  induction xs generalizing p with
  | nil =>
    obtain rfl : p = q := h
    exact ⟨Mem.load_store m p (bytes x), rfl⟩
  | cons y ys ih =>
    have hle : p + span bytes gap y ≤ q := h.2.le
    rw [span] at hle
    refine ⟨?_, ih h.2⟩
    rw [Mem.load_store_outside (.inl (by omega))]
    exact h.1

/-- A store elsewhere leaves the records. -/
theorem Laid.store_outside {o : Nat} (bs : List Byte) (h : Laid bytes gap m p xs q)
    (ho : q ≤ o ∨ o + bs.length ≤ p) : Laid bytes gap (m.store o bs) p xs q :=
  h.congr fun i h₁ h₂ => (Mem.store_outside (by omega)).symm

end

end XH
