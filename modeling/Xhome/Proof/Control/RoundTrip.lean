import Xhome.Impl.Control.Protocol

/-!
# The round trip of a control message

`encodeMessage` announces a string with its number of `char`s and writes its
UTF-8 bytes, so that the decoder reads too few bytes of a string that is not
ASCII.

* `readDatum_wire`: a value is read back if its strings are ASCII;
* `decoderLoop_shifted`: a decoder that is inside the encoding of a list never
  gets back to where a value of that list begins, and so never yields it;
* `decoderLoop_wires_iff`: a list is read back exactly if its strings are ASCII;
* `roundTrips_iff`: the same for messages.
-/

namespace XH.Proof.Control

open XH.Impl.Control

/-- An `Integer`, a `Long` or a `String`. -/
def Plain : Datum → Prop
  | .integer _ | .long _ | .string _ => True
  | .other | .null => False

/-- The bytes of a value. -/
def wire : Datum → List Byte
  | .integer v => writeInt DataType.integer.getValue ++ writeInt v
  | .long v => writeInt DataType.long.getValue ++ writeLong v
  | .string s => writeInt DataType.string.getValue ++ writeInt (.ofNat 32 s.length) ++ Utf8.getBytes s
  | .other | .null => []

def wires (ds : List Datum) : List Byte := ds.flatMap wire

/-- The value is no string, or an ASCII one. -/
def AsciiDatum : Datum → Prop
  | .string s => Utf8.Ascii s
  | _ => True

theorem encodeData_eq {ds : List Datum} (h : ∀ d ∈ ds, Plain d) : encodeData ds = .ok (wires ds) := by
  induction ds with
  | nil => rfl
  | cons d ds ih =>
    have hd : encodeDatum d = .ok (wire d) := by
      have hp := h d List.mem_cons_self
      cases d with
      | integer v => rfl
      | long v => rfl
      | string s => rfl
      | other => exact hp.elim
      | null => exact hp.elim
    rw [encodeData, hd, ih fun d' h' => h d' (List.mem_cons_of_mem d h')]
    rfl

/-! ## Reading -/

/-- What a sequence returns, its first part returned before. -/
theorem ok_of_bind {ε α β : Type} {m : Except ε α} {f : α → Except ε β} {b : β} (h : (m >>= f) = .ok b) :
    ∃ a, m = .ok a ∧ f a = .ok b := by
  cases m with
  | error e => cases h
  | ok a => exact ⟨a, rfl, h⟩

theorem ok_of_map {ε α β : Type} {m : Except ε α} {f : α → β} {b : β} (h : m.map f = .ok b) :
    ∃ a, m = .ok a ∧ f a = b := by
  cases m with
  | error e => cases h
  | ok a => exact ⟨a, rfl, Except.ok.inj h⟩

theorem length_writeInt (v : BitVec 32) : (writeInt v).length = 4 := length_bytesOf 4 v.toNat

theorem length_writeLong (v : BitVec 64) : (writeLong v).length = 8 := length_bytesOf 8 v.toNat

theorem readBytes_append (bs rest : List Byte) : readBytes bs.length (bs ++ rest) = .ok (bs, rest) := by
  rw [readBytes, if_pos (by rw [List.length_append]; omega), List.take_left, List.drop_left]

theorem readBytes_eq {n : Nat} {buf bs rest : List Byte} (h : readBytes n buf = .ok (bs, rest)) :
    buf = bs ++ rest ∧ bs.length = n := by
  unfold readBytes at h
  split at h
  · rename_i hn
    obtain ⟨rfl, rfl⟩ := Prod.mk.inj (Except.ok.inj h)
    exact ⟨(List.take_append_drop n buf).symm, by rw [List.length_take, Nat.min_eq_left hn]⟩
  · cases h

theorem valueOf_writeInt (v : BitVec 32) : BitVec.ofNat 32 (valueOf (writeInt v)) = v := ofNat_valueOf_bytesOf (by decide) v

theorem valueOf_writeLong (v : BitVec 64) : BitVec.ofNat 64 (valueOf (writeLong v)) = v := ofNat_valueOf_bytesOf (by decide) v

theorem readInt_writeInt (v : BitVec 32) (rest : List Byte) : readInt (writeInt v ++ rest) = .ok (v, rest) := by
  have h := readBytes_append (writeInt v) rest
  rw [length_writeInt] at h
  rw [readInt, h]
  show Except.ok (BitVec.ofNat 32 (valueOf (writeInt v)), rest) = _
  rw [valueOf_writeInt]

theorem readLong_writeLong (v : BitVec 64) (rest : List Byte) :
    readLong (writeLong v ++ rest) = .ok (v, rest) := by
  have h := readBytes_append (writeLong v) rest
  rw [length_writeLong] at h
  rw [readLong, h]
  show Except.ok (BitVec.ofNat 64 (valueOf (writeLong v)), rest) = _
  rw [valueOf_writeLong]

theorem readInt_eq {buf rest : List Byte} {v : BitVec 32} (h : readInt buf = .ok (v, rest)) :
    buf = writeInt v ++ rest := by
  obtain ⟨⟨bs, rest'⟩, hb, e⟩ := ok_of_map h
  cases e
  obtain ⟨rfl, hl⟩ := readBytes_eq hb
  exact congrArg (· ++ rest) (bytesOf_ofNat_valueOf (by decide) hl).symm

theorem readLong_eq {buf rest : List Byte} {v : BitVec 64} (h : readLong buf = .ok (v, rest)) :
    buf = writeLong v ++ rest := by
  obtain ⟨⟨bs, rest'⟩, hb, e⟩ := ok_of_map h
  cases e
  obtain ⟨rfl, hl⟩ := readBytes_eq hb
  exact congrArg (· ++ rest) (bytesOf_ofNat_valueOf (by decide) hl).symm

theorem readString_append {c : List Byte} (hc : c.length < 2 ^ 31) (rest : List Byte) :
    readString (writeInt (.ofNat 32 c.length) ++ c ++ rest) = .ok (.string (Utf8.newString c), rest) := by
  have hn : (BitVec.ofNat 32 c.length).toNat = c.length := by
    rw [BitVec.toNat_ofNat, Nat.mod_eq_of_lt (by omega)]
  have hi : ¬ (BitVec.ofNat 32 c.length).toInt < 0 := by
    rw [BitVec.toInt_eq_toNat_of_lt (by omega)]
    omega
  unfold readString
  rw [List.append_assoc, readInt_writeInt]
  simp only [bind, Except.bind, if_neg hi, hn, readBytes_append]
  rfl

theorem readString_eq {buf rest : List Byte} {d : Datum} (h : readString buf = .ok (d, rest)) :
    ∃ c, c.length < 2 ^ 31 ∧ d = .string (Utf8.newString c) ∧
      buf = writeInt (.ofNat 32 c.length) ++ c ++ rest := by
  obtain ⟨⟨size, buf'⟩, hi, h⟩ := ok_of_bind h
  dsimp only at h
  split at h
  · cases h
  · rename_i hs
    obtain ⟨⟨c, rest'⟩, hb, h⟩ := ok_of_bind h
    cases h
    obtain ⟨rfl, hl⟩ := readBytes_eq hb
    have hsize : size.toNat < 2 ^ 31 := by
      rw [BitVec.toInt_eq_toNat_cond] at hs
      split at hs <;> omega
    refine ⟨c, hl ▸ hsize, rfl, ?_⟩
    rw [readInt_eq hi, hl, BitVec.ofNat_toNat, BitVec.setWidth_eq, List.append_assoc]

/-- What a round of the decoder reads. -/
theorem readDatum_eq {buf rest : List Byte} {d : Option Datum} (h : readDatum buf = .ok (d, rest)) :
    (∃ v, d = some (.integer v) ∧ buf = wire (.integer v) ++ rest) ∨
    (∃ v, d = some (.long v) ∧ buf = wire (.long v) ++ rest) ∨
    (∃ c, c.length < 2 ^ 31 ∧ d = some (.string (Utf8.newString c)) ∧
      buf = writeInt DataType.string.getValue ++ writeInt (.ofNat 32 c.length) ++ c ++ rest) ∨
    (∃ t, (t ≠ DataType.integer.getValue ∧ t ≠ DataType.string.getValue ∧ t ≠ DataType.long.getValue) ∧
      d = none ∧ buf = writeInt t ++ rest) := by
  obtain ⟨⟨type, buf'⟩, hi, hrest⟩ := ok_of_bind h
  obtain rfl := readInt_eq hi
  dsimp only at hrest
  split at hrest
  · rename_i ht
    obtain ⟨⟨v, rest'⟩, hv, e⟩ := ok_of_bind hrest
    cases e
    exact .inl ⟨v, rfl, by rw [readInt_eq hv, ht, wire, List.append_assoc]⟩
  · split at hrest
    · rename_i ht
      obtain ⟨⟨v, rest'⟩, hv, e⟩ := ok_of_bind hrest
      cases e
      obtain ⟨c, hc, hd, hb⟩ := readString_eq hv
      exact .inr (.inr (.inl ⟨c, hc, by rw [hd], by rw [hb, ht]; simp only [List.append_assoc]⟩))
    · split at hrest
      · rename_i ht
        obtain ⟨⟨v, rest'⟩, hv, e⟩ := ok_of_bind hrest
        cases e
        exact .inr (.inl ⟨v, rfl, by rw [readLong_eq hv, ht, wire, List.append_assoc]⟩)
      · cases hrest
        exact .inr (.inr (.inr ⟨type, ⟨‹_›, ‹_›, ‹_›⟩, rfl, rfl⟩))

/-! ## ASCII strings are read back -/

theorem readDatum_wire {d : Datum} (hp : Plain d) (ha : AsciiDatum d) (hl : (wire d).length < 2 ^ 31)
    (rest : List Byte) : readDatum (wire d ++ rest) = .ok (some d, rest) := by
  cases d with
  | integer v =>
    rw [readDatum, wire, List.append_assoc, readInt_writeInt]
    simp only [bind, Except.bind, if_true, readInt_writeInt]
    rfl
  | long v =>
    rw [readDatum, wire, List.append_assoc, readInt_writeInt]
    simp only [bind, Except.bind, readLong_writeLong]
    rfl
  | string s =>
    have hb : Utf8.getBytes s = s.map fun u => .ofNat 8 u.toNat := by
      have h := Utf8.getBytes_of_ascii ha []
      rwa [List.append_nil, Utf8.getBytes, List.append_nil] at h
    have hlen : (Utf8.getBytes s).length = s.length := by rw [hb, List.length_map]
    have hs : Utf8.newString (Utf8.getBytes s) = s := by
      have h := Utf8.newString_of_ascii ha []
      rw [List.append_nil, ← hb] at h
      rw [h]
      exact List.append_nil s
    have hsize : (Utf8.getBytes s).length < 2 ^ 31 := by
      rw [wire, List.length_append] at hl
      omega
    have hread := readString_append hsize rest
    rw [hs, hlen] at hread
    rw [readDatum, wire, List.append_assoc, List.append_assoc, readInt_writeInt, ← List.append_assoc]
    simp only [bind, Except.bind, hread]
    rfl
  | other => exact hp.elim
  | null => exact hp.elim

theorem four_le_length_wire {d : Datum} (hp : Plain d) : 4 ≤ (wire d).length := by
  cases d with
  | integer v => rw [wire, List.length_append, length_writeInt]; omega
  | long v => rw [wire, List.length_append, length_writeInt]; omega
  | string s => rw [wire, List.append_assoc, List.length_append, length_writeInt]; omega
  | other => exact hp.elim
  | null => exact hp.elim

theorem wires_cons (d : Datum) (ds : List Datum) : wires (d :: ds) = wire d ++ wires ds := List.flatMap_cons

theorem decoderLoop_succ {fuel : Nat} {buf rest : List Byte} {d : Option Datum} (hb : buf ≠ [])
    (h : readDatum buf = .ok (d, rest)) :
    decoderLoop (fuel + 1) buf = (decoderLoop fuel rest).map (d.toList ++ ·) := by
  cases buf with
  | nil => exact absurd rfl hb
  | cons b bs =>
    rw [decoderLoop, h]
    cases e : decoderLoop fuel rest <;> simp only [bind, Except.bind, e] <;> rfl

theorem decoderLoop_wires {ds : List Datum} {fuel : Nat} (hp : ∀ d ∈ ds, Plain d) (ha : ∀ d ∈ ds, AsciiDatum d)
    (hl : (wires ds).length < 2 ^ 31) (hf : (wires ds).length ≤ fuel) :
    decoderLoop fuel (wires ds) = .ok ds := by
  induction ds generalizing fuel with
  | nil => cases fuel <;> rfl
  | cons d ds ih =>
    have h4 := four_le_length_wire (hp d List.mem_cons_self)
    rw [wires_cons, List.length_append] at hl hf
    rw [wires_cons]
    obtain ⟨fuel, rfl⟩ : ∃ n, fuel = n + 1 := ⟨fuel - 1, by omega⟩
    have hne : wire d ++ wires ds ≠ [] := by
      intro e
      have := congrArg List.length e
      rw [List.length_append, List.length_nil] at this
      omega
    rw [decoderLoop_succ hne (readDatum_wire (hp d List.mem_cons_self) (ha d List.mem_cons_self) (by omega) _),
      ih (fun d' h => hp d' (List.mem_cons_of_mem d h)) (fun d' h => ha d' (List.mem_cons_of_mem d h))
        (by omega) (by omega)]
    rfl

/-! ## A decoder out of step -/

/-- The bytes of `DataType.STRING` and of a size below `2^31`. -/
def stringHead (n : Nat) : List Byte := writeInt DataType.string.getValue ++ writeInt (.ofNat 32 n)

theorem length_stringHead (n : Nat) : (stringHead n).length = 8 := by
  rw [stringHead, List.length_append, length_writeInt, length_writeInt]

/-- The bytes that announce a value begin with its type. -/
theorem stringHead_eq (n : Nat) : stringHead n = 2 :: 0 :: 0 :: 0 :: writeInt (.ofNat 32 n) := rfl

/-- Among the bytes of a size the highest is ASCII. -/
theorem ascii_stringHead {n : Nat} (h : n < 2 ^ 31) : 5 ≤ Utf8.ascii (stringHead n) := by
  have hn : (BitVec.ofNat 32 n).toNat = n := by rw [BitVec.toNat_ofNat, Nat.mod_eq_of_lt (by omega)]
  have hlast : (BitVec.ofNat 8 (n / 256 / 256 / 256)).toNat < 0x80 := by
    rw [BitVec.toNat_ofNat]
    omega
  have h1 : 1 ≤ Utf8.ascii (writeInt (.ofNat 32 n)) := by
    rw [Utf8.ascii, Nat.one_le_iff_ne_zero, ← Nat.pos_iff_ne_zero, List.countP_pos_iff]
    refine ⟨.ofNat 8 (n / 256 / 256 / 256), ?_, decide_eq_true hlast⟩
    rw [writeInt, hn]
    simp only [bytesOf, List.mem_cons, or_true, true_or]
  rw [stringHead_eq, Utf8.ascii_cons_of_lt (by decide), Utf8.ascii_cons_of_lt (by decide),
    Utf8.ascii_cons_of_lt (by decide), Utf8.ascii_cons_of_lt (by decide)]
  omega

/-- A string found inside the bytes of the same string reaches beyond them. -/
theorem length_string_lt {pre c z : List Byte} {s : List CodeUnit} (hc : c.length < 2 ^ 31) (hpre : pre ≠ [])
    (hs : Utf8.newString c = s) (h : pre ++ stringHead c.length ++ c ++ z = stringHead s.length ++ Utf8.getBytes s) :
    False := by
  have hcount := congrArg Utf8.ascii h
  have hsame : Utf8.ascii (Utf8.getBytes s) = Utf8.ascii c := hs ▸ Utf8.ascii_getBytes_newString c
  have h5 := ascii_stringHead hc
  have h8 : Utf8.ascii (stringHead s.length) ≤ 8 := length_stringHead s.length ▸ Utf8.ascii_le_length _
  simp only [Utf8.ascii_append] at hcount
  -- The bytes before it hold less than a type, and no type begins inside of another.
  have hlt : Utf8.ascii pre < 4 := by omega
  rw [stringHead_eq s.length, stringHead_eq c.length] at h
  match pre, hpre with
  | [a], _ => simp at h
  | [a, b], _ => simp at h
  | [a, b, d], _ => simp at h
  | a :: b :: d :: e :: rest, _ =>
    simp only [List.cons_append, List.cons.injEq] at h
    obtain ⟨rfl, rfl, rfl, rfl, -⟩ := h
    rw [Utf8.ascii_cons_of_lt (by decide), Utf8.ascii_cons_of_lt (by decide),
      Utf8.ascii_cons_of_lt (by decide), Utf8.ascii_cons_of_lt (by decide)] at hlt
    omega

theorem readDatum_length {buf rest : List Byte} {d : Option Datum} (h : readDatum buf = .ok (d, rest)) :
    rest.length < buf.length := by
  have h4 : ∀ t : BitVec 32, 0 < (writeInt t).length := fun t => by rw [length_writeInt]; exact Nat.succ_pos 3
  rcases readDatum_eq h with ⟨v, -, rfl⟩ | ⟨v, -, rfl⟩ | ⟨c, -, -, rfl⟩ | ⟨t, -, -, rfl⟩
  all_goals
    simp only [wire, List.length_append]
    have := h4 DataType.integer.getValue
    have := h4 DataType.long.getValue
    have := h4 DataType.string.getValue
  · omega
  · omega
  · omega
  · have := h4 t
    omega

/-- What was read as a value does not lie inside the bytes of that value. -/
theorem readDatum_outside {buf rest pre : List Byte} {d : Datum} (h : readDatum buf = .ok (some d, rest))
    (hpre : pre ≠ []) : ∃ item, buf = item ++ rest ∧ ∀ z, pre ++ item ++ z ≠ wire d := by
  have hlen : ∀ {item z : List Byte}, pre ++ item ++ z ≠ item := by
    intro item z e
    have := congrArg List.length e
    simp only [List.length_append] at this
    exact hpre (List.length_eq_zero_iff.mp (by omega))
  rcases readDatum_eq h with ⟨v, e, hb⟩ | ⟨v, e, hb⟩ | ⟨c, hc, e, hb⟩ | ⟨t, -, e, -⟩
  · obtain rfl := Option.some.inj e
    exact ⟨_, hb, fun z => hlen⟩
  · obtain rfl := Option.some.inj e
    exact ⟨_, hb, fun z => hlen⟩
  · obtain rfl := Option.some.inj e
    refine ⟨_, hb, fun z he => length_string_lt (z := z) hc hpre rfl ?_⟩
    rw [← stringHead, ← List.append_assoc] at he
    rw [he, wire, stringHead]
  · cases e

/-- A decoder inside the encoding of a list does not yield the list. -/
theorem decoderLoop_shifted {fuel : Nat} {pre buf : List Byte} {ds : List Datum} (hpre : pre ≠ [])
    (h : pre ++ buf = wires ds) (hf : buf.length ≤ fuel) : decoderLoop fuel buf ≠ .ok ds := by
  have hds : ds ≠ [] := by
    rintro rfl
    exact hpre (List.append_eq_nil_iff.mp h).1
  induction fuel generalizing pre buf ds with
  | zero =>
    intro e
    exact hds (Except.ok.inj e).symm
  | succ fuel ih =>
    rcases eq_or_ne buf [] with rfl | hb
    · intro e
      exact hds (Except.ok.inj e).symm
    cases hr : readDatum buf with
    | error f =>
      cases buf with
      | nil => exact absurd rfl hb
      | cons b bs => rw [decoderLoop, hr]; exact fun e => by cases e
    | ok p =>
      obtain ⟨d, rest⟩ := p
      rw [decoderLoop_succ hb hr]
      intro e
      obtain ⟨ds', hd, rfl⟩ := ok_of_map e
      have hagain : ∀ pre' : List Byte, pre' ≠ [] → pre' ++ rest = wires ds' → False := by
        intro pre' hpre' h'
        have hlt : rest.length ≤ fuel := Nat.le_of_lt_succ (Nat.lt_of_lt_of_le (readDatum_length hr) hf)
        refine ih hpre' h' hlt ?_ hd
        rintro rfl
        exact hpre' (List.append_eq_nil_iff.mp h').1
      cases d with
      | none =>
        -- The bytes passed over join those before.
        rcases readDatum_eq hr with ⟨v, e, -⟩ | ⟨v, e, -⟩ | ⟨c, -, e, -⟩ | ⟨t, -, -, rfl⟩
        · cases e
        · cases e
        · cases e
        · refine hagain (pre ++ writeInt t) (fun e => hpre (List.append_eq_nil_iff.mp e).1) ?_
          rw [List.append_assoc]
          exact h
      | some d =>
        obtain ⟨item, rfl, hout⟩ := readDatum_outside hr hpre
        rw [Option.toList_some, List.singleton_append, wires_cons, ← List.append_assoc] at h
        rcases List.append_eq_append_iff.mp h with ⟨z, hz, -⟩ | ⟨pre', hz, h'⟩
        · exact hout z hz.symm
        · refine hagain pre' ?_ h'.symm
          rintro rfl
          exact hout [] (by rw [List.append_nil, hz, List.append_nil])

/-! ## A string that is not ASCII -/

/-- Two bytes of U+FFFD before the encoding of a list: the decoder passes them
over with the first half of a type and is out of step. -/
theorem decoderLoop_rest {fuel : Nat} {ds : List Datum} (hp : ∀ d ∈ ds, Plain d)
    (hf : (wires ds).length + 2 ≤ fuel) : decoderLoop fuel (0xBF :: 0xBD :: wires ds) ≠ .ok ds := by
  obtain ⟨fuel, rfl⟩ : ∃ n, fuel = n + 1 := ⟨fuel - 1, by omega⟩
  cases ds with
  | nil => exact fun e => by cases e
  | cons d ds =>
    obtain ⟨t, w, ht, hw⟩ : ∃ (t : Byte) (w : List Byte), t.toNat ≤ 2 ∧ wire d = t :: 0 :: w := by
      have hd := hp d List.mem_cons_self
      cases d with
      | integer v => exact ⟨0, _, by decide, rfl⟩
      | long v => exact ⟨1, _, by decide, rfl⟩
      | string s => exact ⟨2, _, by decide, rfl⟩
      | other => exact hd.elim
      | null => exact hd.elim
    have hr : readDatum (0xBF :: 0xBD :: wires (d :: ds)) = .ok (none, w ++ wires ds) := by
      rw [wires_cons, hw]
      have hread := readInt_writeInt (.ofNat 32 (valueOf [0xBF, 0xBD, t, 0])) (w ++ wires ds)
      have hv : valueOf [0xBF, 0xBD, t, 0] = 0xBDBF + 65536 * t.toNat := by
        simp only [valueOf]
        show 0xBF + 256 * (0xBD + 256 * (t.toNat + 256 * (0 + 256 * 0))) = _
        omega
      have hb : writeInt (.ofNat 32 (valueOf [0xBF, 0xBD, t, 0])) = [0xBF, 0xBD, t, 0] := by
        rw [writeInt, BitVec.toNat_ofNat, Nat.mod_eq_of_lt (by omega)]
        exact bytesOf_valueOf [0xBF, 0xBD, t, 0]
      have hne : ∀ v : BitVec 32, v.toNat ≤ 2 → BitVec.ofNat 32 (valueOf [0xBF, 0xBD, t, 0]) ≠ v := by
        intro v hle e
        have := congrArg BitVec.toNat e
        rw [BitVec.toNat_ofNat, hv] at this
        omega
      rw [hb] at hread
      rw [readDatum, show (0xBF :: 0xBD :: (t :: 0 :: w ++ wires ds) : List Byte) =
        [0xBF, 0xBD, t, 0] ++ (w ++ wires ds) from rfl, hread]
      simp only [bind, Except.bind, if_neg (hne DataType.integer.getValue (by decide)),
        if_neg (hne DataType.string.getValue (by decide)), if_neg (hne DataType.long.getValue (by decide))]
      rfl
    rw [decoderLoop_succ (List.cons_ne_nil _ _) hr]
    intro e
    obtain ⟨ds', hd, rfl⟩ : ∃ ds', decoderLoop fuel (w ++ wires ds) = .ok ds' ∧ ds' = d :: ds := ok_of_map e
    rw [wires_cons, hw] at hf
    simp only [List.length_append, List.length_cons] at hf
    refine decoderLoop_shifted (List.cons_ne_nil t [0]) ?_ (by rw [List.length_append]; omega) hd
    rw [wires_cons, hw]
    rfl

/-- The part of a string before its first unit that is not ASCII. -/
theorem exists_first {s : List CodeUnit} (h : ¬ Utf8.Ascii s) :
    ∃ a u t, s = a ++ u :: t ∧ Utf8.Ascii a ∧ 0x80 ≤ u.toNat := by
  induction s with
  | nil => exact absurd (fun u hu => by cases hu) h
  | cons u s ih =>
    rcases Nat.lt_or_ge u.toNat 0x80 with hu | hu
    · have hs : ¬ Utf8.Ascii s := fun hs => h fun v hv => by
        rcases List.mem_cons.mp hv with rfl | hv
        · exact hu
        · exact hs v hv
      obtain ⟨a, v, t, rfl, ha, hv⟩ := ih hs
      refine ⟨u :: a, v, t, rfl, fun w hw => ?_, hv⟩
      rcases List.mem_cons.mp hw with rfl | hw
      · exact hu
      · exact ha w hw
    · exact ⟨[], u, s, rfl, (fun v hv => by cases hv), hu⟩

/-- The first two bytes of U+FFFD are read together. -/
theorem decodeAt_two (bs : List Byte) : (Utf8.decodeAt 0xEF (0xBF :: bs)).2 ≠ 0 := by
  have ht : Utf8.tails 2 0x80 0xBF (0xBF :: bs) = 0xBF :: Utf8.tails 1 0x80 0xBF bs := rfl
  rw [Utf8.decodeAt, if_neg (by decide), show Utf8.lead 0xEF = some (2, 0x80, 0xBF) by decide]
  simp only [ht, List.length_cons]
  split
  · exact Nat.succ_ne_zero 1
  · exact Nat.succ_ne_zero _

/-- The first bytes of a string that is not ASCII, as many as it has units,
are the string only where it ends with its first U+FFFD. -/
theorem getBytes_of_newString_take {s : List CodeUnit} (hs : ¬ Utf8.Ascii s)
    (h : Utf8.newString ((Utf8.getBytes s).take s.length) = s) :
    (Utf8.getBytes s).drop s.length = [0xBF, 0xBD] := by
  have hlen : ((Utf8.getBytes s).take s.length).length = s.length := by
    rw [List.length_take, Nat.min_eq_left (Utf8.length_le_getBytes s)]
  have hmap := Utf8.newString_eq_map ((congrArg List.length h).trans hlen.symm)
  obtain ⟨a, u, t, rfl, ha, hu⟩ := exists_first hs
  have hru : u = Utf8.replacement := by
    have hmem : u ∈ ((Utf8.getBytes (a ++ u :: t)).take (a ++ u :: t).length).map Utf8.byteUnit := by
      rw [← hmap, h]
      exact List.mem_append_right a List.mem_cons_self
    obtain ⟨b, -, rfl⟩ := List.mem_map.mp hmem
    unfold Utf8.byteUnit at hu ⊢
    split
    · rename_i hb
      rw [if_pos hb, BitVec.toNat_ofNat] at hu
      omega
    · rfl
  have hbytes : Utf8.getBytes (a ++ u :: t) =
      (a.map fun v => .ofNat 8 v.toNat) ++ 0xEF :: 0xBF :: 0xBD :: Utf8.getBytes t := by
    rw [Utf8.getBytes_of_ascii ha, hru, Utf8.getBytes_cons (by decide)]
    rfl
  have hn : (a ++ u :: t).length = (a.map fun v => BitVec.ofNat 8 v.toNat).length + (t.length + 1) := by
    rw [List.length_append, List.length_cons, List.length_map]
  cases t with
  | nil => rw [hbytes, hn, List.drop_length_add_append]; rfl
  | cons v t =>
    -- Two bytes of U+FFFD make one unit at most.
    have hlt := Utf8.length_newString_lt (decodeAt_two ((0xBD :: Utf8.getBytes (v :: t)).take t.length))
    have hall := congrArg List.length h
    rw [hbytes, hn, List.take_length_add_append, List.take_succ_cons, List.length_cons, List.take_succ_cons,
      Utf8.newString_of_ascii ha, List.length_append, List.length_map] at hall
    rw [List.length_cons, List.length_take, List.length_cons] at hlt
    omega

theorem decoderLoop_string {fuel : Nat} {s : List CodeUnit} {ds : List Datum} (hs : ¬ Utf8.Ascii s)
    (hp : ∀ d ∈ ds, Plain d) (hl : (wires (.string s :: ds)).length < 2 ^ 31)
    (hf : (wires (.string s :: ds)).length ≤ fuel) :
    decoderLoop fuel (wires (.string s :: ds)) ≠ .ok (.string s :: ds) := by
  have hsl := Utf8.length_le_getBytes s
  obtain ⟨c, z, hcz⟩ : ∃ c z, c = (Utf8.getBytes s).take s.length ∧ z = (Utf8.getBytes s).drop s.length :=
    ⟨_, _, rfl, rfl⟩
  have hb : c ++ z = Utf8.getBytes s := by rw [hcz.1, hcz.2, List.take_append_drop]
  have hc : c.length = s.length := by rw [hcz.1, List.length_take, Nat.min_eq_left hsl]
  have hw : wires (.string s :: ds) =
      writeInt DataType.string.getValue ++ (writeInt (.ofNat 32 c.length) ++ c ++ (z ++ wires ds)) := by
    rw [wires_cons, wire, ← hb, hc]
    simp only [List.append_assoc]
  rw [hw] at hl hf ⊢
  simp only [List.length_append, length_writeInt] at hl hf
  obtain ⟨fuel, rfl⟩ : ∃ n, fuel = n + 1 := ⟨fuel - 1, by omega⟩
  have hr : readDatum (writeInt DataType.string.getValue ++ (writeInt (.ofNat 32 c.length) ++ c ++ (z ++ wires ds)))
      = .ok (some (.string (Utf8.newString c)), z ++ wires ds) := by
    rw [readDatum, readInt_writeInt]
    simp only [bind, Except.bind, readString_append (show c.length < 2 ^ 31 by omega)]
    rfl
  rw [decoderLoop_succ (by exact List.cons_ne_nil _ _) hr]
  intro e
  obtain ⟨ds', hd, e⟩ := ok_of_map e
  obtain ⟨hstr, rfl⟩ := List.cons.inj e
  have hz : z = [0xBF, 0xBD] := by
    rw [hcz.2]
    exact getBytes_of_newString_take hs (hcz.1 ▸ Datum.string.inj hstr)
  rw [hz] at hd hf
  exact decoderLoop_rest hp (by simp only [List.length_cons, List.length_nil] at hf; omega) hd

/-- A list of values is read back exactly if its strings are ASCII. -/
theorem decoderLoop_wires_iff {ds : List Datum} {fuel : Nat} (hp : ∀ d ∈ ds, Plain d)
    (hl : (wires ds).length < 2 ^ 31) (hf : (wires ds).length ≤ fuel) :
    decoderLoop fuel (wires ds) = .ok ds ↔ ∀ d ∈ ds, AsciiDatum d := by
  refine ⟨fun h => ?_, fun ha => decoderLoop_wires hp ha hl hf⟩
  induction ds generalizing fuel with
  | nil => intro d hd; cases hd
  | cons d ds ih =>
    have hpd := hp d List.mem_cons_self
    have hps : ∀ d' ∈ ds, Plain d' := fun d' h' => hp d' (List.mem_cons_of_mem d h')
    by_cases ha : AsciiDatum d
    · have h4 := four_le_length_wire hpd
      rw [wires_cons, List.length_append] at hl hf
      obtain ⟨fuel, rfl⟩ : ∃ n, fuel = n + 1 := ⟨fuel - 1, by omega⟩
      rw [wires_cons, decoderLoop_succ (fun e => by rw [(List.append_eq_nil_iff.mp e).1] at h4; cases h4)
        (readDatum_wire hpd ha (by omega) _)] at h
      obtain ⟨ds', hd, e⟩ := ok_of_map h
      obtain ⟨-, rfl⟩ := List.cons.inj e
      intro d' h'
      rcases List.mem_cons.mp h' with rfl | h'
      · exact ha
      · exact ih hps (by omega) (by omega) hd d' h'
    · cases d with
      | string s => exact absurd h (decoderLoop_string ha hps hl hf)
      | integer v => exact absurd trivial ha
      | long v => exact absurd trivial ha
      | other => exact hpd.elim
      | null => exact hpd.elim

/-! ## Messages -/

theorem readHeader_eq (a b c d e : BitVec 32) (rest : List Byte) :
    readHeader (writeInt a ++ writeInt b ++ writeInt c ++ writeInt d ++ writeInt e ++ rest) =
      (⟨some a, some b, some c, some d, some e⟩, rest) := by
  have h : readHeader (writeInt a ++ writeInt b ++ writeInt c ++ writeInt d ++ writeInt e ++ rest) =
      (⟨some (.ofNat 32 (valueOf (writeInt a))), some (.ofNat 32 (valueOf (writeInt b))),
        some (.ofNat 32 (valueOf (writeInt c))), some (.ofNat 32 (valueOf (writeInt d))),
        some (.ofNat 32 (valueOf (writeInt e)))⟩, rest) := rfl
  rw [h]
  simp only [valueOf_writeInt]

/-- A whole frame in front is decoded and taken out of the buffer. -/
theorem decode_frame (a b c d : BitVec 32) {body : List Byte} (h : body.length < 2 ^ 31) (rest : List Byte) :
    decode (writeInt a ++ writeInt b ++ writeInt c ++ writeInt d ++ writeInt (.ofNat 32 body.length) ++
        (body ++ rest)) =
      (readBody ⟨some a, some b, some c, some d, some (.ofNat 32 body.length)⟩ body, rest) := by
  have hn : (BitVec.ofNat 32 body.length).toNat = body.length := by
    rw [BitVec.toNat_ofNat, Nat.mod_eq_of_lt (by omega)]
  have hi : (BitVec.ofNat 32 body.length).toInt = body.length := by
    rw [BitVec.toInt_eq_toNat_of_lt (by omega), hn]
  rw [decode, if_neg (by simp only [List.length_append, length_writeInt, headerSize]; omega), readHeader_eq]
  simp only [Option.getD_some, hi, hn, List.take_left, List.drop_left]
  rw [if_neg (by rw [List.length_append]; omega), if_neg (by omega)]

theorem readBody_eq {header : Header} {body : List Byte} (h : body ≠ []) :
    readBody header body = (decoderLoop body.length body).bind fun data =>
      (messageTypeOf data).map fun messageType => some ⟨some header, some data, messageType⟩ := by
  cases body with
  | nil => exact absurd rfl h
  | cons b bs =>
    rw [readBody, decoder, List.length_cons]
    cases decoderLoop (bs.length + 1) (b :: bs) with
    | error f => rfl
    | ok data => cases messageTypeOf data <;> rfl

/-- A buffer that holds a message gives back its version, number, reserved
field and data, and is empty then. -/
def RoundTrips (msg : Message) (buf : List Byte) : Prop :=
  ∃ m, decode buf = (.ok (some m), []) ∧ m.header.map (·.version) = msg.header.map (·.version) ∧
    m.header.map (·.seqNo) = msg.header.map (·.seqNo) ∧ m.header.map (·.reserved) = msg.header.map (·.reserved) ∧
    m.data = msg.data ∧ m.messageType.map Datum.integer = msg.data.bind List.head?

section

variable {now version seqNo reserved i : BitVec 32} {timeStamp bodyLength messageType : Option (BitVec 32)}
  {ds : List Datum} {buf : List Byte}

theorem encodeMessage_eq (hp : ∀ d ∈ ds, Plain d)
    (h : encodeMessage now (some ⟨some ⟨some version, some seqNo, timeStamp, some reserved, bodyLength⟩,
      some (.integer i :: ds), messageType⟩) = .ok buf) :
    buf = writeInt version ++ writeInt seqNo ++ writeInt now ++ writeInt reserved ++
        writeInt (.ofNat 32 (wires (.integer i :: ds)).length) ++ wires (.integer i :: ds) ∧
      (wires (.integer i :: ds)).length < 2 ^ 31 := by
  have hd : encodeData (.integer i :: ds) = .ok (wires (.integer i :: ds)) :=
    encodeData_eq fun d hd => by
      rcases List.mem_cons.mp hd with rfl | hd
      · trivial
      · exact hp d hd
  generalize wires (.integer i :: ds) = ws at hd ⊢
  simp only [encodeMessage, encode, hd, bind, Except.bind, dynamicBuffer] at h
  split at h
  · cases h
  · rename_i body hbody
    split at hbody
    · obtain rfl := Except.ok.inj hbody
      rename_i hlen
      simp only [unbox, buffer] at h
      split at h
      · exact ⟨(Except.ok.inj h).symm, hlen⟩
      · cases h
    · cases hbody

/-- A message whose data begins with an `Integer` is decoded to what it was
exactly if all its strings are ASCII. -/
theorem roundTrips_iff (hp : ∀ d ∈ ds, Plain d)
    (h : encodeMessage now (some ⟨some ⟨some version, some seqNo, timeStamp, some reserved, bodyLength⟩,
      some (.integer i :: ds), messageType⟩) = .ok buf) :
    RoundTrips ⟨some ⟨some version, some seqNo, timeStamp, some reserved, bodyLength⟩,
      some (.integer i :: ds), messageType⟩ buf ↔ ∀ s, .string s ∈ ds → Utf8.Ascii s := by
  obtain ⟨rfl, hlen⟩ := encodeMessage_eq hp h
  have hplain : ∀ d ∈ Datum.integer i :: ds, Plain d := fun d hd => by
    rcases List.mem_cons.mp hd with rfl | hd
    · trivial
    · exact hp d hd
  have hcond : (∀ d ∈ Datum.integer i :: ds, AsciiDatum d) ↔ ∀ s, .string s ∈ ds → Utf8.Ascii s := by
    constructor
    · exact fun h s hs => h _ (List.mem_cons_of_mem _ hs)
    · intro h d hd
      rcases List.mem_cons.mp hd with rfl | hd
      · trivial
      · cases d with
        | string s => exact h s hd
        | _ => trivial
  have hdecode := decode_frame version seqNo now reserved hlen []
  have hne : wires (.integer i :: ds) ≠ [] := List.cons_ne_nil _ _
  rw [List.append_nil, readBody_eq hne] at hdecode
  rw [← hcond, ← decoderLoop_wires_iff hplain hlen (Nat.le_refl _), RoundTrips, hdecode]
  constructor
  · rintro ⟨m, hm, -, -, -, hdata, -⟩
    cases hloop : decoderLoop (wires (.integer i :: ds)).length (wires (.integer i :: ds)) with
    | error f => rw [hloop] at hm; cases hm
    | ok data =>
      rw [hloop] at hm
      cases ht : messageTypeOf data with
      | error f => rw [Except.bind, ht] at hm; cases hm
      | ok t =>
        rw [Except.bind, ht] at hm
        obtain rfl := Option.some.inj (Except.ok.inj (Prod.mk.inj hm).1)
        rw [Option.some.inj hdata]
  · intro hloop
    rw [hloop]
    exact ⟨_, rfl, rfl, rfl, rfl, rfl, rfl⟩

end

/-- `é` has one `char` and two bytes. -/
def accented : Message := ⟨some ⟨some 1, some 2, none, some 3, none⟩, some [.integer 4, .string [0xE9]], some 4⟩

theorem accented_not_roundTrips :
    ∃ buf, encodeMessage 0 (some accented) = .ok buf ∧ ¬ RoundTrips accented buf := by
  refine ⟨_, rfl, ?_⟩
  rintro ⟨m, hm, -⟩
  have herr : decode [1, 0, 0, 0, 2, 0, 0, 0, 0, 0, 0, 0, 3, 0, 0, 0, 18, 0, 0, 0, 0, 0, 0, 0, 4, 0, 0, 0, 2, 0, 0, 0,
      1, 0, 0, 0, 0xC3, 0xA9] = (.error .indexOutOfBounds, []) := by decide +kernel
  exact absurd ((Prod.mk.inj (herr.symm.trans hm)).1) (by exact fun e => by cases e)

/-- A registration: its type, a serial number and a model. -/
def plainMessage : Message :=
  ⟨some ⟨some 1, some 2, none, some 3, none⟩, some [.integer 4, .string [0x43, 0x31], .string [0x4D]], some 4⟩

theorem registration_roundTrips : ∃ buf, encodeMessage 7 (some plainMessage) = .ok buf ∧ RoundTrips plainMessage buf := by
  have hp : ∀ d ∈ [Datum.string [0x43, 0x31], .string [0x4D]], Plain d :=
    List.forall_mem_cons.mpr ⟨trivial, List.forall_mem_singleton.mpr trivial⟩
  have ha : ∀ s, Datum.string s ∈ [Datum.string [0x43, 0x31], .string [0x4D]] → Utf8.Ascii s := by
    have h : ∀ d ∈ [Datum.string [0x43, 0x31], .string [0x4D]], AsciiDatum d :=
      List.forall_mem_cons.mpr ⟨show Utf8.Ascii [0x43, 0x31] by simp [Utf8.Ascii],
        List.forall_mem_singleton.mpr (show Utf8.Ascii [0x4D] by simp [Utf8.Ascii])⟩
    exact fun s hs => h _ hs
  have he : encodeMessage 7 (some plainMessage) = .ok [1, 0, 0, 0, 2, 0, 0, 0, 7, 0, 0, 0, 3, 0, 0, 0, 27, 0, 0, 0,
      0, 0, 0, 0, 4, 0, 0, 0, 2, 0, 0, 0, 2, 0, 0, 0, 0x43, 0x31, 2, 0, 0, 0, 1, 0, 0, 0, 0x4D] := by decide +kernel
  exact ⟨_, he, (@roundTrips_iff 7 1 2 3 4 none none (some 4) _ _ hp he).mpr ha⟩

end XH.Proof.Control
