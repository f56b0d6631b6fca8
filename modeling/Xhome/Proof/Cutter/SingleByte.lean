import Xhome.Framework.XorLinear
import Xhome.Proof.Cutter.CheckSum

/-!
# The checksum and single-byte errors

The step of `check_sum_new` on two words is a linear map of the checksum
(`wordStep`) and an exclusive or with the words; the step on a byte likewise
(`byteStep`). `byteStep` is injective. `wordStep` is not, but its third iterate gives
the second back, so its iterates have no greater kernel than `wordStep^2`, and
no error in a single byte lies in that (`Lane.persists`).
-/

namespace XH.Proof.Cutter

open XH.Impl.Cutter

/-- What the step on two words makes of the checksum. -/
def wordStep (crc : BitVec 32) : BitVec 32 := crc ^^^ ((crc <<< 14) ^^^ (crc >>> 6))

/-- What the step on a byte makes of the checksum. -/
def byteStep (crc : BitVec 32) : BitVec 32 := crc ^^^ ((crc >>> 13) ^^^ (crc <<< 7))

theorem crcWords_eq (crc v0 v1 : BitVec 32) : crcWords crc v0 v1 = wordStep crc ^^^ (v0 ^^^ v1) := by
  rw [crcWords, wordStep, BitVec.xor_assoc crc]

theorem crcByte_eq (crc : BitVec 32) (b : Byte) : crcByte crc b = byteStep crc ^^^ b.setWidth 32 := by
  rw [crcByte, byteStep, BitVec.xor_assoc (crc >>> 13), BitVec.xor_comm (b.setWidth 32), ← BitVec.xor_assoc (crc >>> 13),
    BitVec.xor_assoc crc]

theorem wordStep_linear : XorLinear wordStep :=
  XorLinear.refl.xor ((XorLinear.shiftLeft 14).xor (XorLinear.ushiftRight 6))

theorem byteStep_linear : XorLinear byteStep :=
  XorLinear.refl.xor ((XorLinear.ushiftRight 13).xor (XorLinear.shiftLeft 7))

/-! ## The kernels -/

/-- The second iterate of `wordStep`, recovered from the third. -/
def wordBack (x : BitVec 32) : BitVec 32 := wordStep x ^^^ (wordStep^[5] x ^^^ wordStep^[9] x)

theorem wordBack_linear : XorLinear wordBack :=
  wordStep_linear.xor ((wordStep_linear.iterate 5).xor (wordStep_linear.iterate 9))

theorem wordBack_iterate (x : BitVec 32) : wordBack (wordStep^[3] x) = wordStep^[2] x :=
  (wordBack_linear.comp (wordStep_linear.iterate 3)).ext (wordStep_linear.iterate 2) (by decide +kernel) x

/-- The inverse of `byteStep`. -/
def byteBack (x : BitVec 32) : BitVec 32 := byteStep x ^^^ (byteStep^[15] x ^^^ byteStep^[17] x)

theorem byteBack_linear : XorLinear byteBack :=
  byteStep_linear.xor ((byteStep_linear.iterate 15).xor (byteStep_linear.iterate 17))

theorem byteBack_byteStep (x : BitVec 32) : byteBack (byteStep x) = x :=
  (byteBack_linear.comp byteStep_linear).ext .refl (by decide +kernel) x

theorem byteStep_injective : Function.Injective byteStep :=
  Function.LeftInverse.injective byteBack_byteStep

/-- The words that one byte alone makes different from 0. -/
inductive Lane : BitVec 32 → Prop
  | first {e : Byte} : e ≠ 0 → Lane (wordLE e 0 0 0)
  | second {e : Byte} : e ≠ 0 → Lane (wordLE 0 e 0 0)
  | third {e : Byte} : e ≠ 0 → Lane (wordLE 0 0 e 0)
  | fourth {e : Byte} : e ≠ 0 → Lane (wordLE 0 0 0 e)

theorem lane_kernel : ∀ e : Byte, e ≠ 0 →
    wordStep^[2] (wordLE e 0 0 0) ≠ 0#32 ∧ wordStep^[2] (wordLE 0 e 0 0) ≠ 0#32 ∧
      wordStep^[2] (wordLE 0 0 e 0) ≠ 0#32 ∧ wordStep^[2] (wordLE 0 0 0 e) ≠ 0#32 := by
  decide +kernel

/-- No number of steps makes an error in one byte vanish. -/
theorem Lane.persists {d : BitVec 32} (h : Lane d) (k : Nat) : wordStep^[k] d ≠ 0#32 := by
  intro hk
  have hz : wordStep^[2] d = 0#32 := wordStep_linear.iterate_eq_zero wordBack_linear wordBack_iterate hk
  cases h with
  | first he => exact (lane_kernel _ he).1 hz
  | second he => exact (lane_kernel _ he).2.1 hz
  | third he => exact (lane_kernel _ he).2.2.1 hz
  | fourth he => exact (lane_kernel _ he).2.2.2 hz

/-! ## Two buffers -/

/-- Two byte strings that differ in one byte. -/
inductive OneByte : List Byte → List Byte → Prop
  | head {a b : Byte} {l : List Byte} : a ≠ b → OneByte (a :: l) (b :: l)
  | tail {a : Byte} {l l' : List Byte} : OneByte l l' → OneByte (a :: l) (a :: l')

theorem OneByte.length_eq {l l' : List Byte} (h : OneByte l l') : l'.length = l.length := by
  induction h with
  | head => rfl
  | tail _ ih => simp [ih]

/-- The byte lies in the first part or in the second. -/
theorem OneByte.append {q : List Byte} : ∀ {p l' : List Byte}, OneByte (p ++ q) l' →
    (∃ p', OneByte p p' ∧ l' = p' ++ q) ∨ ∃ q', OneByte q q' ∧ l' = p ++ q'
  | [], l', h => .inr ⟨l', h, rfl⟩
  | a :: p, l', h => by
    cases h with
    | @head _ b _ hab => exact .inl ⟨b :: p, .head hab, rfl⟩
    | tail h =>
      rcases h.append with ⟨p', hp, rfl⟩ | ⟨q', hq, rfl⟩
      · exact .inl ⟨a :: p', .tail hp, rfl⟩
      · exact .inr ⟨q', hq, rfl⟩

/-- Buffers with one index at which they differ. -/
theorem oneByte_of_index : ∀ {l l' : List Byte}, l'.length = l.length → (∃! i : Nat, l[i]? ≠ l'[i]?) → OneByte l l'
  | [], [], _, ⟨i, hi, _⟩ => absurd rfl hi
  | a :: l, b :: l', hl, ⟨i, hi, hu⟩ => by
    replace hl : l'.length = l.length := by simpa using hl
    cases i with
    | zero =>
      have hll : l = l' := List.ext_getElem? fun j => by
        by_contra hj
        exact absurd (hu (j + 1) (by simpa using hj)) (by omega)
      subst hll
      exact .head (by simpa using hi)
    | succ i =>
      have hab : a = b := by
        by_contra hab
        exact absurd (hu 0 (by simpa using hab)) (by omega)
      subst hab
      refine .tail (oneByte_of_index hl ⟨i, by simpa using hi, fun j hj => ?_⟩)
      have := hu (j + 1) (by simpa using hj)
      omega

theorem crcWords_xor_left (crc e v0 v1 : BitVec 32) :
    crcWords (crc ^^^ e) v0 v1 = crcWords crc v0 v1 ^^^ wordStep e := by
  rw [crcWords_eq, crcWords_eq, wordStep_linear, BitVec.xor_assoc, BitVec.xor_comm (wordStep e), ← BitVec.xor_assoc]

/-- A difference in the checksum goes through the words of a buffer. -/
theorem crcLoop_xor (crc : BitVec 32) (l : List Byte) : ∀ e : BitVec 32,
    ∃ k, crcLoop (crc ^^^ e) l = ((crcLoop crc l).1 ^^^ wordStep^[k] e, (crcLoop crc l).2) := by
  fun_induction crcLoop crc l with
  | case1 crc b₀ b₁ b₂ b₃ b₄ b₅ b₆ b₇ rest ih =>
    intro e
    obtain ⟨k, hk⟩ := ih (wordStep e)
    exact ⟨k + 1, by rw [crcLoop, crcWords_xor_left, hk, Function.iterate_succ_apply]⟩
  | case2 crc rest hshort =>
    intro e
    exact ⟨0, by rw [crcLoop.eq_2 _ _ hshort]; rfl⟩

theorem wordLE_xor (a₀ a₁ a₂ a₃ b₀ b₁ b₂ b₃ : Byte) :
    wordLE (a₀ ^^^ b₀) (a₁ ^^^ b₁) (a₂ ^^^ b₂) (a₃ ^^^ b₃) = wordLE a₀ a₁ a₂ a₃ ^^^ wordLE b₀ b₁ b₂ b₃ := by
  show ((a₃ ^^^ b₃) ++ (a₂ ^^^ b₂) ++ (a₁ ^^^ b₁) ++ (a₀ ^^^ b₀) : BitVec (8 + 8 + 8 + 8)) =
    (a₃ ++ a₂ ++ a₁ ++ a₀) ^^^ (b₃ ++ b₂ ++ b₁ ++ b₀)
  rw [BitVec.xor_append, BitVec.xor_append, BitVec.xor_append]

/-- A byte of the first word that differs. -/
theorem crcWords_left {crc v0 v0' v1 d : BitVec 32} (h : v0' = v0 ^^^ d) :
    crcWords crc v0' v1 = crcWords crc v0 v1 ^^^ d := by
  rw [h, crcWords_eq, crcWords_eq, BitVec.xor_assoc v0, BitVec.xor_comm d, ← BitVec.xor_assoc v0, BitVec.xor_assoc (wordStep crc)]

theorem crcWords_right {crc v0 v1 v1' d : BitVec 32} (h : v1' = v1 ^^^ d) :
    crcWords crc v0 v1' = crcWords crc v0 v1 ^^^ d := by
  rw [h, crcWords_eq, crcWords_eq, ← BitVec.xor_assoc v0, BitVec.xor_assoc (wordStep crc)]

/-- A word with an error in one of its bytes. -/
theorem OneByte.wordLE {b₀ b₁ b₂ b₃ : Byte} {p : List Byte} (h : OneByte [b₀, b₁, b₂, b₃] p) :
    ∃ a₀ a₁ a₂ a₃ d, p = [a₀, a₁, a₂, a₃] ∧ Lane d ∧ wordLE a₀ a₁ a₂ a₃ = wordLE b₀ b₁ b₂ b₃ ^^^ d := by
  have hne : ∀ {a b : Byte}, a ≠ b → a ^^^ b ≠ 0 := fun h e => h (BitVec.xor_eq_zero_iff.mp e)
  have hxor : ∀ a b : Byte, a ^^^ (a ^^^ b) = b := fun a b => by rw [← BitVec.xor_assoc, BitVec.xor_self, BitVec.zero_xor]
  have hzero : ∀ a : Byte, a ^^^ 0 = a := fun a => BitVec.xor_zero
  cases h with
  | head h => exact ⟨_, _, _, _, _, rfl, .first (hne h), by rw [← wordLE_xor, hxor, hzero, hzero, hzero]⟩
  | tail h =>
    cases h with
    | head h => exact ⟨_, _, _, _, _, rfl, .second (hne h), by rw [← wordLE_xor, hxor, hzero, hzero, hzero]⟩
    | tail h =>
      cases h with
      | head h => exact ⟨_, _, _, _, _, rfl, .third (hne h), by rw [← wordLE_xor, hxor, hzero, hzero, hzero]⟩
      | tail h =>
        cases h with
        | head h => exact ⟨_, _, _, _, _, rfl, .fourth (hne h), by rw [← wordLE_xor, hxor, hzero, hzero, hzero]⟩
        | tail h => cases h

/-- An error among eight bytes is one of the checksum behind them. -/
theorem crcLoop_eight {b₀ b₁ b₂ b₃ b₄ b₅ b₆ b₇ : Byte} {p : List Byte}
    (h : OneByte [b₀, b₁, b₂, b₃, b₄, b₅, b₆, b₇] p) (crc : BitVec 32) (rest : List Byte) :
    ∃ d, Lane d ∧ crcLoop crc (p ++ rest) =
      crcLoop (crcWords crc (wordLE b₀ b₁ b₂ b₃) (wordLE b₄ b₅ b₆ b₇) ^^^ d) rest := by
  rcases OneByte.append (p := [b₀, b₁, b₂, b₃]) h with ⟨q, hq, rfl⟩ | ⟨q, hq, rfl⟩
  · obtain ⟨a₀, a₁, a₂, a₃, d, rfl, hd, e⟩ := hq.wordLE
    exact ⟨d, hd, by rw [← crcWords_left e]; rfl⟩
  · obtain ⟨a₀, a₁, a₂, a₃, d, rfl, hd, e⟩ := hq.wordLE
    exact ⟨d, hd, by rw [← crcWords_right e]; rfl⟩

/-- Behind the words either the checksums differ, by an error that has gone
through some steps, or the bytes that are left do. -/
def Apart (r r' : BitVec 32 × List Byte) : Prop :=
  (∃ k d, Lane d ∧ r' = (r.1 ^^^ wordStep^[k] d, r.2)) ∨ (r'.1 = r.1 ∧ OneByte r.2 r'.2)

theorem crcLoop_apart (crc : BitVec 32) (l : List Byte) : ∀ {l' : List Byte}, OneByte l l' →
    Apart (crcLoop crc l) (crcLoop crc l') := by
  fun_induction crcLoop crc l with
  | case1 crc b₀ b₁ b₂ b₃ b₄ b₅ b₆ b₇ rest ih =>
    intro l' h
    rcases OneByte.append (p := [b₀, b₁, b₂, b₃, b₄, b₅, b₆, b₇]) h with ⟨p, hp, rfl⟩ | ⟨rest', hr, rfl⟩
    · obtain ⟨d, hd, e⟩ := crcLoop_eight hp crc rest
      obtain ⟨k, hk⟩ := crcLoop_xor (crcWords crc (wordLE b₀ b₁ b₂ b₃) (wordLE b₄ b₅ b₆ b₇)) rest d
      exact .inl ⟨k, d, hd, e.trans hk⟩
    · exact ih hr
  | case2 crc rest hshort =>
    intro l' h
    have hlen := crcLoop_rest_lt crc rest
    rw [crcLoop.eq_2 _ _ hshort] at hlen
    rw [crcLoop_short (by rw [h.length_eq]; exact hlen)]
    exact .inr ⟨rfl, h⟩

/-! ## The bytes behind the words -/

theorem crcByte_left_inj {crc crc' : BitVec 32} {b : Byte} : crcByte crc b = crcByte crc' b ↔ crc = crc' := by
  rw [crcByte_eq, crcByte_eq, BitVec.xor_left_inj]
  exact byteStep_injective.eq_iff

theorem crcByte_right_inj {crc : BitVec 32} {a b : Byte} : crcByte crc a = crcByte crc b ↔ a = b := by
  rw [crcByte_eq, crcByte_eq, BitVec.xor_right_inj]
  refine ⟨fun h => ?_, fun h => by rw [h]⟩
  have h := congrArg (BitVec.setWidth 8) h
  simpa using h

theorem foldl_crcByte_inj (l : List Byte) : ∀ {crc crc' : BitVec 32},
    l.foldl crcByte crc = l.foldl crcByte crc' ↔ crc = crc' := by
  induction l with
  | nil => exact fun {_ _} => Iff.rfl
  | cons b l ih =>
    intro crc crc'
    rw [List.foldl_cons, List.foldl_cons, ih, crcByte_left_inj]

theorem OneByte.foldl_crcByte {l l' : List Byte} (h : OneByte l l') :
    ∀ crc : BitVec 32, l.foldl crcByte crc ≠ l'.foldl crcByte crc := by
  induction h with
  | @head a b l hab =>
    intro crc
    rw [List.foldl_cons, List.foldl_cons, Ne, foldl_crcByte_inj, crcByte_right_inj]
    exact hab
  | @tail a l l' _ ih => exact fun crc => ih (crcByte crc a)

/-- An error before the last byte. -/
theorem Apart.crcTail {r r' : BitVec 32 × List Byte} (h : Apart r r') (lastByte : Byte) :
    crcTail r.1 r.2 lastByte ≠ crcTail r'.1 r'.2 lastByte := by
  rw [Impl.Cutter.crcTail, Impl.Cutter.crcTail, Ne, crcByte_left_inj]
  rcases h with ⟨k, d, hd, rfl⟩ | ⟨he, hr⟩
  · intro h
    have h : r.1 ^^^ 0#32 = r.1 ^^^ wordStep^[k] d := BitVec.xor_zero.trans ((foldl_crcByte_inj r.2).mp h)
    exact hd.persists k ((BitVec.xor_right_inj r.1).mp h).symm
  · rw [he]
    exact hr.foldl_crcByte r.1

theorem checkSumNew_concat (l : List Byte) (z : Byte) :
    checkSumNew [l ++ [z]] = crcTail (crcLoop crcInit l).1 (crcLoop crcInit l).2 z := by
  rw [checkSumNew, checkSumFrom_concat]

/-- Of two buffers of the same length, at least one byte, that differ in exactly
one byte, `check_sum_new` is different. -/
theorem single_byte_detected {n : Nat} (hn : 1 ≤ n) {b b' : Buffer} (hb : b.length = n) (hb' : b'.length = n)
    (h : ∃! i : Nat, b[i]? ≠ b'[i]?) : checkSumNew [b] ≠ checkSumNew [b'] := by
  have hone : OneByte b b' := oneByte_of_index (hb'.trans hb.symm) h
  obtain ⟨l, z, rfl⟩ := List.eq_nil_or_concat b |>.resolve_left (by rintro rfl; simp at hb; omega)
  rw [List.concat_eq_append] at hone ⊢
  rcases hone.append with ⟨l', hl, rfl⟩ | ⟨q, hq, rfl⟩
  · rw [checkSumNew_concat, checkSumNew_concat]
    exact (crcLoop_apart crcInit l hl).crcTail z
  · cases hq with
    | head hz =>
      rw [checkSumNew_concat, checkSumNew_concat, Impl.Cutter.crcTail, Impl.Cutter.crcTail, Ne, crcByte_right_inj]
      exact hz
    | tail hq => cases hq

/-- Nine bytes with an error in the second. -/
theorem single_byte_detected_nine :
    checkSumNew [[1, 2, 3, 4, 5, 6, 7, 8, 9]] ≠ checkSumNew [[1, 0, 3, 4, 5, 6, 7, 8, 9]] :=
  single_byte_detected (n := 9) (by decide) rfl rfl ⟨1, by decide, fun j hj => by
    match j with
    | 0 | 2 | 3 | 4 | 5 | 6 | 7 | 8 => exact absurd rfl hj
    | 1 => rfl
    | n + 9 => exact absurd rfl hj⟩

end XH.Proof.Cutter
