import Xhome.Impl.Live.Header

/-!
# What a chunk header says is what was written

The bytes of a header are those of its fields, the highest one first but for the
stream id (`write_eq`). Reading them gives the fields back and takes exactly
these bytes (`read_fieldBytes`). A read that has waited for more bytes is taken
up again as if it had not been made (`read_resume`), and one that did not has
not looked at the bytes behind (`read_append`).
-/

namespace XH.Proof.Live

open Impl.Live

/-! ## Bytes of a word -/

theorem bytesOf_ntohl (x : BitVec 32) : bytesOf 4 (ntohl x).toNat = (bytesOf 4 x.toNat).reverse :=
  bytesOf_ofNat_valueOf rfl (by rw [List.length_reverse, length_bytesOf])

theorem ntohl_ntohl (x : BitVec 32) : ntohl (ntohl x) = x := by
  rw [ntohl, bytesOf_ntohl, List.reverse_reverse]
  exact ofNat_valueOf_bytesOf rfl x

/-- The word with these bytes, the lowest one first. -/
def word (b : List Byte) : BitVec 32 := .ofNat 32 (valueOf b)

/-- The message length with these bytes, the lowest one first. -/
def length24 (b : List Byte) : BitVec 24 := .ofNat 24 (valueOf b)

theorem ntohl_word (a b c d : Byte) : ntohl (word [a, b, c, d]) = word [d, c, b, a] := by
  have h : bytesOf 4 (word [a, b, c, d]).toNat = [a, b, c, d] := bytesOf_ofNat_valueOf rfl rfl
  rw [ntohl, h]
  rfl

theorem eq_length24 (ml : BitVec 24) : ∃ a b c : Byte, bytesOf 3 ml.toNat = [a, b, c] ∧ ml = length24 [a, b, c] :=
  ⟨_, _, _, rfl, (ofNat_valueOf_bytesOf (k := 3) rfl ml).symm⟩

section

variable (a b c d : Byte)

theorem toNat_zero_byte : (0 : Byte).toNat = 0 := rfl

theorem length24_setWidth : (length24 [a, b, c]).setWidth 32 = word [a, b, c, 0] := by
  have ha := a.isLt; have hb := b.isLt; have hc := c.isLt
  apply BitVec.eq_of_toNat_eq
  simp only [length24, word, valueOf, BitVec.toNat_setWidth, BitVec.toNat_ofNat, toNat_zero_byte]
  omega

theorem word_setWidth : (word [a, b, c, d]).setWidth 24 = length24 [a, b, c] := by
  have ha := a.isLt; have hb := b.isLt; have hc := c.isLt; have hd := d.isLt
  apply BitVec.eq_of_toNat_eq
  simp only [length24, word, valueOf, BitVec.toNat_setWidth, BitVec.toNat_ofNat]
  omega

theorem word_shiftLeft : word [a, b, c, 0] <<< 8 = word [0, a, b, c] := by
  have ha := a.isLt; have hb := b.isLt; have hc := c.isLt
  apply BitVec.eq_of_toNat_eq
  simp only [word, valueOf, BitVec.toNat_shiftLeft, Nat.shiftLeft_eq, BitVec.toNat_ofNat, toNat_zero_byte]
  omega

theorem word_shiftRight : word [0, a, b, c] >>> 8 = word [a, b, c, 0] := by
  have ha := a.isLt; have hb := b.isLt; have hc := c.isLt
  apply BitVec.eq_of_toNat_eq
  simp only [word, valueOf, BitVec.toNat_ushiftRight, Nat.shiftRight_eq_div_pow, BitVec.toNat_ofNat, toNat_zero_byte]
  omega

/-- The three bytes of a timestamp behind any byte, once it is masked. -/
theorem word_and : word [a, b, c, d] &&& 0x00ffffff = word [a, b, c, 0] := by
  have ha := a.isLt; have hb := b.isLt; have hc := c.isLt; have hd := d.isLt
  apply BitVec.eq_of_toNat_eq
  rw [BitVec.toNat_and, show ((0x00ffffff : BitVec 32)).toNat = 2 ^ 24 - 1 from rfl, Nat.and_two_pow_sub_one_eq_mod]
  simp only [word, valueOf, BitVec.toNat_ofNat, toNat_zero_byte]
  omega

theorem swapMl_length24 (f : HeaderFields) (h : f.ml = length24 [a, b, c]) :
    f.swapMl = { f with ml := length24 [c, b, a] } := by
  rw [HeaderFields.swapMl, h, length24_setWidth, word_shiftLeft, ntohl_word, word_setWidth]

theorem unswapMl_length24 (f : HeaderFields) (h : f.ml = length24 [a, b, c]) :
    f.unswapMl = { f with ml := length24 [c, b, a] } := by
  rw [HeaderFields.unswapMl, h, length24_setWidth, ntohl_word, word_shiftRight, word_setWidth]

end

theorem unswapMl_swapMl (f : HeaderFields) : f.swapMl.unswapMl = f := by
  obtain ⟨a, b, c, -, h⟩ := eq_length24 f.ml
  rw [swapMl_length24 a b c f h, unswapMl_length24 c b a _ rfl, ← h]

/-! ## The bytes of a header -/

/-- The three bytes of a timestamp: the marker stands for one that needs four. -/
def timeBytes (ts : BitVec 32) : List Byte :=
  (bytesOf 3 (if ts < 0x00ffffff then ts.toNat else 0x00ffffff)).reverse

/-- The timestamp in four bytes if the marker is there. -/
def extendedBytes (ts : BitVec 32) : List Byte :=
  if ts < 0x00ffffff then [] else (bytesOf 4 ts.toNat).reverse

/-- The bytes that a header of type `ht` has behind those of its channel. -/
def fieldBytes (ht : BitVec 8) (f : HeaderFields) : List Byte :=
  if ht = htFull then
    timeBytes f.ts ++ (bytesOf 3 f.ml.toNat).reverse ++ [f.mt] ++ bytesOf 4 f.si.toNat ++ extendedBytes f.ts
  else if ht = htSameStream then
    timeBytes f.ts ++ (bytesOf 3 f.ml.toNat).reverse ++ [f.mt] ++ extendedBytes f.ts
  else if ht = htSameLengthAndStream then timeBytes f.ts ++ extendedBytes f.ts
  else extendedBytes f.ts

theorem ofNat_toNat_byte (b : Byte) : BitVec.ofNat 8 b.toNat = b := by
  rw [BitVec.ofNat_toNat, BitVec.setWidth_eq]

/-- The bytes from `&datac[1]` on of a header whose `ts` and `ml` have been swapped. -/
theorem copyOut_swap (f : HeaderFields) (ts : BitVec 32) :
    (f.swapTs ts).swapMl.copyOut 11 =
        (bytesOf 3 ts.toNat).reverse ++ (bytesOf 3 f.ml.toNat).reverse ++ [f.mt] ++ bytesOf 4 f.si.toNat ∧
      (f.swapTs ts).swapMl.copyOut 7 =
        (bytesOf 3 ts.toNat).reverse ++ (bytesOf 3 f.ml.toNat).reverse ++ [f.mt] ∧
      (f.swapTs ts).copyOut 3 = (bytesOf 3 ts.toNat).reverse := by
  have ht := bytesOf_ntohl ts
  have hm : bytesOf 3 f.swapMl.ml.toNat = (bytesOf 3 f.ml.toNat).reverse := by
    obtain ⟨a, b, c, hb, h⟩ := eq_length24 f.ml
    rw [swapMl_length24 a b c f h, hb]
    exact bytesOf_ofNat_valueOf rfl rfl
  have h1 : bytesOf 1 f.mt.toNat = [f.mt] := by simp only [bytesOf, ofNat_toNat_byte]
  simp only [bytesOf, List.reverse_cons, List.reverse_nil, List.nil_append, List.cons_append] at ht hm h1
  simp only [HeaderFields.swapMl] at hm
  refine ⟨?_, ?_, ?_⟩ <;>
  · simp only [HeaderFields.copyOut, HeaderFields.datac, HeaderFields.swapTs, HeaderFields.swapMl, bytesOf, ht, hm, h1,
      List.reverse_cons, List.reverse_nil, List.nil_append, List.cons_append, List.drop_succ_cons, List.drop_zero, List.take_succ_cons, List.take_zero]

theorem swapTs_swapTs (f : HeaderFields) (x : BitVec 32) : (f.swapTs x).swapTs (ntohl f.ts) = f := by
  simp only [HeaderFields.swapTs, ntohl_ntohl]

/-- Writing leaves the header as it was. -/
theorem writeFields_eq (h : Header) (n : Nat) (lengthToo : Bool) :
    h.writeFields n lengthToo =
      (h, let f := h.hf.swapTs (if h.hf.ts < 0x00ffffff then h.hf.ts else 0x00ffffff)
        (if lengthToo then f.swapMl else f).copyOut n ++ extendedBytes h.hf.ts) := by
  by_cases ht : h.hf.ts < 0x00ffffff
  · have hs : (h.hf.swapTs h.hf.ts).swapTs (ntohl h.hf.ts) = h.hf := swapTs_swapTs h.hf h.hf.ts
    cases lengthToo
    · simp only [Header.writeFields, if_pos ht, extendedBytes, List.append_nil, Bool.false_eq_true, if_false]
      rw [show (h.hf.swapTs h.hf.ts).ts = ntohl h.hf.ts from rfl, hs]
    · simp only [Header.writeFields, if_pos ht, extendedBytes, List.append_nil, if_true]
      rw [show (h.hf.swapTs h.hf.ts).swapMl.swapTs (h.hf.swapTs h.hf.ts).swapMl.ts =
        ((h.hf.swapTs h.hf.ts).swapTs (ntohl h.hf.ts)).swapMl from rfl, hs, unswapMl_swapMl]
  · have hs : (h.hf.swapTs 0x00ffffff).swapTs (ntohl h.hf.ts) = h.hf := swapTs_swapTs h.hf _
    cases lengthToo
    · simp only [Header.writeFields, if_neg ht, extendedBytes, Bool.false_eq_true, if_false, hs, bytesOf_ntohl]
    · simp only [Header.writeFields, if_neg ht, extendedBytes, if_true, bytesOf_ntohl]
      rw [show (h.hf.swapTs 0x00ffffff).swapMl.swapTs (ntohl h.hf.ts) =
        ((h.hf.swapTs 0x00ffffff).swapTs (ntohl h.hf.ts)).swapMl from rfl, hs, unswapMl_swapMl]

/-- The four header types. -/
def IsType (ht : BitVec 8) : Prop :=
  ht = htFull ∨ ht = htSameStream ∨ ht = htSameLengthAndStream ∨ ht = htContinuation

theorem sameStream_ne_full : htSameStream ≠ htFull := by decide
theorem sameLength_ne_full : htSameLengthAndStream ≠ htFull := by decide
theorem sameLength_ne_sameStream : htSameLengthAndStream ≠ htSameStream := by decide
theorem continuation_ne_full : htContinuation ≠ htFull := by decide
theorem continuation_ne_sameStream : htContinuation ≠ htSameStream := by decide
theorem continuation_ne_sameLength : htContinuation ≠ htSameLengthAndStream := by decide

/-- A header is written as its channel and its fields. -/
theorem write_eq {h : Header} {bytes : List Byte} (hc : h.channelBytes = some bytes) (ht : IsType h.ht)
    (buffer : List Byte) : h.write buffer = (true, h, buffer ++ bytes ++ fieldBytes h.ht h.hf) := by
  have htime : ∀ ts : BitVec 32, (bytesOf 3 (if ts < 0x00ffffff then ts else (0x00ffffff : BitVec 32)).toNat).reverse =
      timeBytes ts := by
    intro ts
    rw [timeBytes]
    split <;> rfl
  obtain ⟨h11, h7, h3⟩ := copyOut_swap h.hf (if h.hf.ts < 0x00ffffff then h.hf.ts else 0x00ffffff)
  rw [htime] at h11 h7 h3
  simp only [Header.write, hc, writeFields_eq, if_true, Bool.false_eq_true, if_false, h11, h7, h3, fieldBytes]
  rcases ht with e | e | e | e
  · simp only [e, if_true]
  · simp only [e, sameStream_ne_full, if_true, if_false]
  · simp only [e, sameLength_ne_full, sameLength_ne_sameStream, if_true, if_false]
  · simp only [e, continuation_ne_full, continuation_ne_sameStream, continuation_ne_sameLength, if_true, if_false,
      extendedBytes]
    by_cases hl : h.hf.ts < 0x00ffffff
    · rw [if_pos hl, if_neg (BitVec.not_le.mpr hl), List.append_nil]
    · rw [if_neg hl, if_pos (BitVec.not_lt.mp hl), ntohl_ntohl, bytesOf_ntohl, ← e]

/-! ## Reading the fields -/

/-- The fields that `readFields` has before it looks for the marker. -/
def inFields (g : HeaderFields) (p : List Byte) (n : Nat) (lengthToo : Bool) : HeaderFields :=
  let hf := { g.copyIn p n with ts := ntohl (g.copyIn p n).ts &&& 0x00ffffff }
  if lengthToo then hf.unswapMl else hf

section

variable (g : HeaderFields) (a b c d e f m : Byte) (p : List Byte)

theorem ts_masked : ntohl (word [d, a, b, c]) &&& 0x00ffffff = word [c, b, a, 0] := by
  rw [ntohl_word, word_and]

theorem inFields_three : inFields g (a :: b :: c :: p) 3 false = { g with ts := word [c, b, a, 0] } := by
  have hm : BitVec.ofNat 24 (valueOf (bytesOf 3 g.ml.toNat)) = g.ml := ofNat_valueOf_bytesOf rfl g.ml
  have ht : BitVec.ofNat 8 (valueOf (bytesOf 1 g.mt.toNat)) = g.mt := ofNat_valueOf_bytesOf rfl g.mt
  have hs : BitVec.ofNat 32 (valueOf (bytesOf 4 g.si.toNat)) = g.si := ofNat_valueOf_bytesOf rfl g.si
  have hc : g.copyIn (a :: b :: c :: p) 3 = { g with ts := word [.ofNat 8 g.ts.toNat, a, b, c] } := by
    rw [← hm, ← ht, ← hs]
    rfl
  simp only [inFields, hc, ts_masked, Bool.false_eq_true, if_false]

theorem inFields_seven : inFields g (a :: b :: c :: d :: e :: f :: m :: p) 7 true =
    { g with ts := word [c, b, a, 0], ml := length24 [f, e, d], mt := m } := by
  have hs : BitVec.ofNat 32 (valueOf (bytesOf 4 g.si.toNat)) = g.si := ofNat_valueOf_bytesOf rfl g.si
  have hc : g.copyIn (a :: b :: c :: d :: e :: f :: m :: p) 7 =
      { g with ts := word [.ofNat 8 g.ts.toNat, a, b, c], ml := length24 [d, e, f], mt := .ofNat 8 (valueOf [m]) } := by
    rw [← hs]
    rfl
  simp only [inFields, hc, ts_masked, if_true]
  rw [unswapMl_length24 d e f _ rfl]
  simp only [valueOf, Nat.mul_zero, Nat.add_zero, ofNat_toNat_byte]

theorem inFields_eleven (s t u v : Byte) :
    inFields g (a :: b :: c :: d :: e :: f :: m :: s :: t :: u :: v :: p) 11 true =
      { ts := word [c, b, a, 0], ml := length24 [f, e, d], mt := m, si := word [s, t, u, v] } := by
  have hc : g.copyIn (a :: b :: c :: d :: e :: f :: m :: s :: t :: u :: v :: p) 11 =
      { ts := word [.ofNat 8 g.ts.toNat, a, b, c], ml := length24 [d, e, f], mt := .ofNat 8 (valueOf [m]),
        si := word [s, t, u, v] } := rfl
  simp only [inFields, hc, ts_masked, if_true]
  rw [unswapMl_length24 d e f _ rfl]
  simp only [valueOf, Nat.mul_zero, Nat.add_zero, ofNat_toNat_byte]

end

/-- The numbers of bytes that `Read` calls `readFields` with. -/
def IsShape (n : Nat) (lengthToo : Bool) : Prop :=
  (n = 11 ∧ lengthToo = true) ∨ (n = 7 ∧ lengthToo = true) ∨ (n = 3 ∧ lengthToo = false)

/-- Fields that are read once more from the same bytes. -/
theorem inFields_again {n : Nat} {l : Bool} (hs : IsShape n l) (g : HeaderFields) {p : List Byte} (hp : n ≤ p.length)
    (more : List Byte) :
    inFields (inFields g p n l) (p ++ more) n l = inFields g p n l ∧
      inFields g (p ++ more) n l = inFields g p n l := by
  have h3 : 3 ≤ p.length := by
    rcases hs with ⟨rfl, -⟩ | ⟨rfl, -⟩ | ⟨rfl, -⟩ <;> omega
  obtain ⟨a, b, c, p, rfl⟩ : ∃ a b c q, p = a :: b :: c :: q := by
    match p, h3 with
    | a :: b :: c :: q, _ => exact ⟨a, b, c, q, rfl⟩
  simp only [List.length_cons] at hp
  rcases hs with ⟨rfl, rfl⟩ | ⟨rfl, rfl⟩ | ⟨rfl, rfl⟩
  · match p, hp with
    | d :: e :: f :: m :: s :: t :: u :: v :: q, _ =>
      simp only [List.cons_append, inFields_eleven, and_self]
  · match p, hp with
    | d :: e :: f :: m :: q, _ => simp only [List.cons_append, inFields_seven, and_self]
  · simp only [List.cons_append, inFields_three, and_self]

theorem readFields_eq (h : Header) (n : Nat) (l : Bool) (buffer : List Byte) :
    h.readFields n l buffer buffer.length =
      if buffer.length < n then ({ h with readCompleted := false }, buffer)
      else if (inFields h.hf buffer n l).ts = 0x00ffffff then
        if buffer.length < n + 4 then
          ({ h with hf := inFields h.hf buffer n l, skip4bytes := true, readCompleted := false }, buffer)
        else
          ({ h with
              hf := { inFields h.hf buffer n l with
                ts := ntohl (.ofNat 32 (valueOf ((buffer.drop n).take 4))) }
              skip4bytes := true
              readCompleted := true }, buffer.drop (n + 4))
      else ({ h with hf := inFields h.hf buffer n l, skip4bytes := false, readCompleted := true }, buffer.drop n) :=
  rfl

section

variable {n : Nat} {l : Bool} {h h' : Header} {buffer rest : List Byte}

/-- More bytes behind those of the fields change nothing. -/
theorem readFields_append (hs : IsShape n l) (e : h.readFields n l buffer buffer.length = (h', rest))
    (hr : h'.readCompleted = true) (more : List Byte) :
    h.readFields n l (buffer ++ more) (buffer ++ more).length = (h', rest ++ more) := by
  rw [readFields_eq] at e
  split at e
  · cases e
    cases hr
  · rename_i hn
    have hn : n ≤ buffer.length := Nat.not_lt.mp hn
    have hi := (inFields_again hs h.hf hn more).2
    rw [readFields_eq, List.length_append, if_neg (by omega), hi]
    split at e
    · rename_i ht
      rw [if_pos ht]
      split at e
      · cases e
        cases hr
      · rename_i h4
        cases e
        rw [if_neg (by omega), List.drop_append_of_le_length (by omega), List.drop_append_of_le_length (by omega),
          List.take_append_of_le_length (by rw [List.length_drop]; omega)]
    · rename_i ht
      cases e
      rw [if_neg ht, List.drop_append_of_le_length (by omega)]

/-- Fields that were not complete are read from the start once there is more. -/
theorem readFields_resume (hs : IsShape n l) (e : h.readFields n l buffer buffer.length = (h', rest))
    (hr : h'.readCompleted = false) :
    rest = buffer ∧ h' = { h with hf := h'.hf, skip4bytes := h'.skip4bytes, readCompleted := false } ∧
      ∀ more, h'.readFields n l (buffer ++ more) (buffer ++ more).length =
        h.readFields n l (buffer ++ more) (buffer ++ more).length := by
  rw [readFields_eq] at e
  split at e
  · cases e
    refine ⟨rfl, rfl, fun more => ?_⟩
    simp only [readFields_eq]
  · rename_i hn
    have hn : n ≤ buffer.length := Nat.not_lt.mp hn
    split at e
    · split at e
      · cases e
        refine ⟨rfl, rfl, fun more => ?_⟩
        obtain ⟨h₁, h₂⟩ := inFields_again hs h.hf hn more
        have hl : ¬ (buffer ++ more).length < n := by rw [List.length_append]; omega
        simp only [readFields_eq, h₁, h₂, if_neg hl]
      · cases e
        cases hr
    · cases e
      cases hr

end

/-! ## Reading a header -/

/-- The value that three bytes of time say. -/
def timeValue (ts : BitVec 32) : BitVec 32 := if ts < 0x00ffffff then ts else 0x00ffffff

theorem eq_timeBytes (ts : BitVec 32) :
    ∃ a b c : Byte, timeBytes ts = [c, b, a] ∧ word [a, b, c, 0] = timeValue ts := by
  have hv : (timeValue ts).toNat < 2 ^ 24 := by
    rw [timeValue]
    split
    · rename_i h
      exact Nat.lt_of_lt_of_le (BitVec.lt_def.mp h) (by decide)
    · decide
  refine ⟨.ofNat 8 (timeValue ts).toNat, .ofNat 8 ((timeValue ts).toNat / 256),
    .ofNat 8 ((timeValue ts).toNat / 256 / 256), ?_, ?_⟩
  · have hi : (if ts < 0x00ffffff then ts.toNat else 0x00ffffff) = (timeValue ts).toNat := by
      rw [timeValue]
      split <;> rfl
    rw [timeBytes, hi]
    rfl
  · apply BitVec.eq_of_toNat_eq
    simp only [word, valueOf, BitVec.toNat_ofNat, toNat_zero_byte]
    omega

theorem eq_word (x : BitVec 32) : ∃ a b c d : Byte, bytesOf 4 x.toNat = [a, b, c, d] ∧ x = word [a, b, c, d] :=
  ⟨_, _, _, _, rfl, (ofNat_valueOf_bytesOf (k := 4) rfl x).symm⟩

/-- `readFields` on the bytes of the fields and those of an extended timestamp. -/
theorem readFields_bytes {n : Nat} {l : Bool} (h : Header) {bytes : List Byte} (f : HeaderFields) (rest : List Byte)
    (hn : bytes.length = n)
    (hi : ∀ p, inFields h.hf (bytes ++ p) n l = { f with ts := timeValue f.ts }) :
    h.readFields n l (bytes ++ extendedBytes f.ts ++ rest) (bytes ++ extendedBytes f.ts ++ rest).length =
      ({ h with hf := f, skip4bytes := !decide (f.ts < 0x00ffffff), readCompleted := true }, rest) := by
  have hd : ∀ q : List Byte, (bytes ++ q).drop n = q := fun q => List.drop_left' hn
  rw [readFields_eq, List.append_assoc, hi, List.length_append, if_neg (by omega)]
  by_cases ht : f.ts < 0x00ffffff
  · have hne : timeValue f.ts ≠ 0x00ffffff := by
      rw [timeValue, if_pos ht]
      exact BitVec.ne_of_lt ht
    rw [if_neg hne, hd, extendedBytes, if_pos ht, List.nil_append, timeValue, if_pos ht]
    simp only [ht, decide_true, Bool.not_true]
  · have hv : timeValue f.ts = 0x00ffffff := by rw [timeValue, if_neg ht]
    have hx : extendedBytes f.ts = bytesOf 4 (ntohl f.ts).toNat := by rw [extendedBytes, if_neg ht, bytesOf_ntohl]
    have h4 : (bytesOf 4 (ntohl f.ts).toNat).length = 4 := length_bytesOf _ _
    have ht4 : (bytesOf 4 (ntohl f.ts).toNat ++ rest).take 4 = bytesOf 4 (ntohl f.ts).toNat := List.take_left' h4
    have hd4 : (bytes ++ (bytesOf 4 (ntohl f.ts).toNat ++ rest)).drop (n + 4) = rest := by
      rw [← List.drop_drop, hd, List.drop_left' h4]
    have hw : BitVec.ofNat 32 (valueOf (bytesOf 4 (ntohl f.ts).toNat)) = ntohl f.ts := ofNat_valueOf_bytesOf rfl _
    rw [hx, if_pos hv, if_neg (by rw [List.length_append, h4]; omega), hd4, hd, ht4, hw, ntohl_ntohl]
    simp only [ht, decide_false, Bool.not_false]

section

variable (h : Header) (channelId : Nat) (buffer : List Byte) (n : Nat)

theorem read_full : h.read channelId htFull buffer n =
    (true, { h with ht := htFull, ci := channelId, isAbsolute := true }.readFields 11 true buffer n) := rfl

theorem read_sameStream : h.read channelId htSameStream buffer n =
    (true, { h with ht := htSameStream, ci := channelId, isAbsolute := false }.readFields 7 true buffer n) := rfl

theorem read_sameLength : h.read channelId htSameLengthAndStream buffer n =
    (true, { h with ht := htSameLengthAndStream, ci := channelId, isAbsolute := false }.readFields 3 false buffer n) :=
  rfl

theorem read_continuation : h.read channelId htContinuation buffer n =
    if h.skip4bytes then
      if n < 4 then
        (true, { h with ht := htContinuation, ci := channelId, isAbsolute := false, readCompleted := false }, buffer)
      else
        (true, { h with ht := htContinuation, ci := channelId, isAbsolute := false, readCompleted := true },
          buffer.drop 4)
    else
      (true, { h with ht := htContinuation, ci := channelId, isAbsolute := false, readCompleted := true }, buffer) :=
  rfl

end

/-- Reading the bytes of a header gives its fields back, if what the bytes leave
out is what the header before it said. -/
theorem read_fieldBytes {ht : BitVec 8} (hty : IsType ht) (h : Header) (f : HeaderFields) (channelId : Nat)
    (rest : List Byte) (hs : ht ≠ htFull → h.hf.si = f.si)
    (hl : ht = htSameLengthAndStream ∨ ht = htContinuation → h.hf.ml = f.ml ∧ h.hf.mt = f.mt)
    (hc : ht = htContinuation → h.hf.ts = f.ts ∧ h.skip4bytes = !decide (f.ts < 0x00ffffff)) :
    h.read channelId ht (fieldBytes ht f ++ rest) (fieldBytes ht f ++ rest).length =
      (true, { ci := channelId, ht := ht, hf := f, readCompleted := true, isAbsolute := decide (ht = htFull),
               skip4bytes := !decide (f.ts < 0x00ffffff) }, rest) := by
  obtain ⟨a, b, c, htb, htv⟩ := eq_timeBytes f.ts
  obtain ⟨d, e, m, hmb, hmv⟩ := eq_length24 f.ml
  obtain ⟨s, t, u, v, hsb, hsv⟩ := eq_word f.si
  rcases hty with rfl | rfl | rfl | rfl
  · have hi : ∀ p, inFields h.hf ((timeBytes f.ts ++ (bytesOf 3 f.ml.toNat).reverse ++ [f.mt] ++
        bytesOf 4 f.si.toNat) ++ p) 11 true = { f with ts := timeValue f.ts } := by
      intro p
      simp only [htb, hmb, hsb, List.reverse_cons, List.reverse_nil, List.nil_append, List.cons_append, inFields_eleven,
        htv, ← hmv, ← hsv]
    rw [read_full, fieldBytes, if_pos rfl, readFields_bytes { h with ht := htFull, ci := channelId, isAbsolute := true } f rest
      (by simp only [htb, hmb, hsb, List.reverse_cons, List.reverse_nil, List.nil_append, List.cons_append,
        List.length_cons, List.length_nil]) hi]
    rfl
  · have hi : ∀ p, inFields h.hf ((timeBytes f.ts ++ (bytesOf 3 f.ml.toNat).reverse ++ [f.mt]) ++ p) 7 true =
        { f with ts := timeValue f.ts } := by
      intro p
      simp only [htb, hmb, List.reverse_cons, List.reverse_nil, List.nil_append, List.cons_append, inFields_seven, htv,
        ← hmv, hs sameStream_ne_full]
    rw [read_sameStream, fieldBytes, if_neg sameStream_ne_full, if_pos rfl, readFields_bytes { h with ht := htSameStream, ci := channelId, isAbsolute := false } f rest
      (by simp only [htb, hmb, List.reverse_cons, List.reverse_nil, List.nil_append, List.cons_append, List.length_cons,
        List.length_nil]) hi]
    rfl
  · obtain ⟨hl₁, hl₂⟩ := hl (.inl rfl)
    have hi : ∀ p, inFields h.hf (timeBytes f.ts ++ p) 3 false = { f with ts := timeValue f.ts } := by
      intro p
      simp only [htb, List.nil_append, List.cons_append, inFields_three, htv, hs sameLength_ne_full, hl₁, hl₂]
    rw [read_sameLength, fieldBytes, if_neg sameLength_ne_full, if_neg sameLength_ne_sameStream, if_pos rfl,
      readFields_bytes { h with ht := htSameLengthAndStream, ci := channelId, isAbsolute := false } f rest
      (by simp only [htb, List.length_cons, List.length_nil]) hi]
    rfl
  · obtain ⟨hl₁, hl₂⟩ := hl (.inr rfl)
    obtain ⟨hc₁, hc₂⟩ := hc rfl
    have hf : h.hf = f := by
      have hs' := hs continuation_ne_full
      cases f
      cases hh : h.hf
      simp only [hh] at hl₁ hl₂ hc₁ hs'
      rw [hl₁, hl₂, hc₁, hs']
    rw [read_continuation, fieldBytes, if_neg continuation_ne_full, if_neg continuation_ne_sameStream,
      if_neg continuation_ne_sameLength, hc₂, hf, extendedBytes]
    by_cases ht : f.ts < 0x00ffffff
    · simp only [ht, decide_true, Bool.not_true, Bool.false_eq_true, if_false, if_true, List.nil_append,
        continuation_ne_full, decide_false]
    · have h4 : (bytesOf 4 f.ts.toNat).reverse.length = 4 := by rw [List.length_reverse, length_bytesOf]
      have hd4 : ((bytesOf 4 f.ts.toNat).reverse ++ rest).drop 4 = rest := List.drop_left' h4
      have hn : ¬ ((bytesOf 4 f.ts.toNat).reverse ++ rest).length < 4 := by rw [List.length_append, h4]; omega
      simp only [ht, decide_false, Bool.not_false, if_true, if_false, hd4, if_neg hn, continuation_ne_full]

section

variable {h h' : Header} {channelId : Nat} {ht : BitVec 8} {buffer rest : List Byte}

/-- More bytes behind those of a header change nothing. -/
theorem read_append (hty : IsType ht) (e : h.read channelId ht buffer buffer.length = (true, h', rest))
    (hr : h'.readCompleted = true) (more : List Byte) :
    h.read channelId ht (buffer ++ more) (buffer ++ more).length = (true, h', rest ++ more) := by
  rcases hty with rfl | rfl | rfl | rfl
  · rw [read_full] at e ⊢
    rw [readFields_append (.inl ⟨rfl, rfl⟩) (Prod.mk.inj e).2 hr]
  · rw [read_sameStream] at e ⊢
    rw [readFields_append (.inr (.inl ⟨rfl, rfl⟩)) (Prod.mk.inj e).2 hr]
  · rw [read_sameLength] at e ⊢
    rw [readFields_append (.inr (.inr ⟨rfl, rfl⟩)) (Prod.mk.inj e).2 hr]
  · rw [read_continuation] at e ⊢
    split at e
    · rename_i hsk
      rw [if_pos hsk]
      split at e
      · cases e
        cases hr
      · rename_i h4
        cases e
        rw [List.length_append, if_neg (by omega), List.drop_append_of_le_length (by omega)]
    · rename_i hsk
      cases e
      rw [if_neg hsk]

/-- A header that was not complete is read from the start once there is more. -/
theorem read_resume (hty : IsType ht) (e : h.read channelId ht buffer buffer.length = (true, h', rest))
    (hr : h'.readCompleted = false) :
    rest = buffer ∧ ∀ more, h'.read channelId ht (buffer ++ more) (buffer ++ more).length =
      h.read channelId ht (buffer ++ more) (buffer ++ more).length := by
  rcases hty with rfl | rfl | rfl | rfl
  · rw [read_full] at e
    obtain ⟨h₁, h₂, h₃⟩ := readFields_resume (.inl ⟨rfl, rfl⟩) (Prod.mk.inj e).2 hr
    refine ⟨h₁, fun more => ?_⟩
    rw [read_full, read_full, ← h₃ more, h₂]
  · rw [read_sameStream] at e
    obtain ⟨h₁, h₂, h₃⟩ := readFields_resume (.inr (.inl ⟨rfl, rfl⟩)) (Prod.mk.inj e).2 hr
    refine ⟨h₁, fun more => ?_⟩
    rw [read_sameStream, read_sameStream, ← h₃ more, h₂]
  · rw [read_sameLength] at e
    obtain ⟨h₁, h₂, h₃⟩ := readFields_resume (.inr (.inr ⟨rfl, rfl⟩)) (Prod.mk.inj e).2 hr
    refine ⟨h₁, fun more => ?_⟩
    rw [read_sameLength, read_sameLength, ← h₃ more, h₂]
  · rw [read_continuation] at e
    split at e
    · split at e
      · cases e
        exact ⟨rfl, fun more => rfl⟩
      · cases e
        cases hr
    · cases e
      cases hr

end

/-- Only a header type that there is not makes `Read` fail. -/
theorem read_ok {ht : BitVec 8} (hty : IsType ht) (h : Header) (channelId : Nat) (buffer : List Byte) (n : Nat) :
    ∃ h' rest, h.read channelId ht buffer n = (true, h', rest) := by
  rcases hty with rfl | rfl | rfl | rfl
  · exact ⟨_, _, read_full ..⟩
  · exact ⟨_, _, read_sameStream ..⟩
  · exact ⟨_, _, read_sameLength ..⟩
  · rw [read_continuation]
    split
    · split <;> exact ⟨_, _, rfl⟩
    · exact ⟨_, _, rfl⟩

theorem readFields_length (h : Header) (n : Nat) (l : Bool) (buffer : List Byte) (m : Nat) :
    (h.readFields n l buffer m).2.length ≤ buffer.length := by
  simp only [Header.readFields]
  repeat' split
  all_goals first | exact Nat.le_refl _ | (simp only [List.length_drop]; omega)

theorem read_length (h : Header) (channelId : Nat) (ht : BitVec 8) (buffer : List Byte) (m : Nat) :
    (h.read channelId ht buffer m).2.2.length ≤ buffer.length := by
  simp only [Header.read]
  repeat' split
  all_goals first | exact readFields_length .. | (simp only [List.length_drop]; omega)

end XH.Proof.Live
