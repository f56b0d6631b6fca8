import Xhome.Proof.Control.RoundTrip

/-!
# The bodies that `ProtocolUtil.decoder` accepts

A body is a sequence of fields (`Field`), or it ends within one. The decoder
throws exactly if it ends within one (`tracedLoop_fields`, `fields_of_decoderLoop`);
the fields of a type it does not read are skipped, and a string is written back
as it was read only if it is ASCII (`acceptsExactly_iff`).
-/

namespace XH.Proof.Control

open XH.Impl.Control

/-- A field of a body, as a round of the decoder reads it. -/
inductive Field where
  | integer (v : BitVec 32)
  | long (v : BitVec 64)
  | string (contents : List Byte) (sized : contents.length < 2 ^ 31)
  /-- A type that the decoder does not read. -/
  | other (type : BitVec 32)
    (unread : type ≠ DataType.integer.getValue ∧ type ≠ DataType.string.getValue ∧ type ≠ DataType.long.getValue)

namespace Field

def bytes : Field → List Byte
  | integer v => wire (.integer v)
  | long v => wire (.long v)
  | string contents _ => stringHead contents.length ++ contents
  | other type _ => writeInt type

/-- What is added to the data. -/
def value : Field → Option Datum
  | integer v => some (.integer v)
  | long v => some (.long v)
  | string contents _ => some (.string (Utf8.newString contents))
  | other _ _ => none

/-- The type is one the decoder reads. -/
def Known (f : Field) : Prop := f.value ≠ none

/-- The field has a type the decoder reads, and a string is ASCII. -/
def Plain : Field → Prop
  | integer _ | long _ => True
  | string contents _ => ∀ b ∈ contents, b.toNat < 0x80
  | other _ _ => False

end Field

/-- The bytes of a sequence of fields. -/
def fieldBytes (fs : List Field) : List Byte := fs.flatMap Field.bytes

/-- The array that a round asks for, and the bytes left then. -/
def arrayRequest (buf : List Byte) : List (Int × Nat) :=
  match readInt buf with
  | .ok (type, buf) =>
    if type = DataType.string.getValue then
      match readInt buf with
      | .ok (size, buf) => [(size.toInt, buf.length)]
      | .error _ => []
    else []
  | .error _ => []

/-- The loop of `ProtocolUtil.decoder` with the arrays it asks for and the bytes left behind it. -/
def tracedLoop : Nat → List Byte → Except Fault (List Datum × List (Int × Nat) × List Byte)
  | 0, buf => .ok ([], [], buf)
  | _ + 1, [] => .ok ([], [], [])
  | fuel + 1, b :: bs => do
    let (d, buf) ← readDatum (b :: bs)
    let (ds, requests, rest) ← tracedLoop fuel buf
    return (d.toList ++ ds, arrayRequest (b :: bs) ++ requests, rest)

theorem tracedLoop_data (fuel : Nat) (buf : List Byte) : (tracedLoop fuel buf).map Prod.fst = decoderLoop fuel buf := by
  induction fuel generalizing buf with
  | zero => rfl
  | succ fuel ih =>
    cases buf with
    | nil => rfl
    | cons b bs =>
      rw [tracedLoop, decoderLoop]
      cases hd : readDatum (b :: bs) with
      | error e => rfl
      | ok r =>
        simp only [bind, Except.bind, ← ih r.2]
        cases tracedLoop fuel r.2 <;> rfl

theorem tracedLoop_succ {fuel : Nat} {buf rest : List Byte} {d : Option Datum} (hb : buf ≠ [])
    (h : readDatum buf = .ok (d, rest)) : tracedLoop (fuel + 1) buf =
      (tracedLoop fuel rest).map fun r => (d.toList ++ r.1, arrayRequest buf ++ r.2.1, r.2.2) := by
  cases buf with
  | nil => exact absurd rfl hb
  | cons b bs =>
    rw [tracedLoop, h]
    cases e : tracedLoop fuel rest <;> simp only [bind, Except.bind, e] <;> rfl

/-! ## Fields -/

theorem readDatum_string {c : List Byte} (hc : c.length < 2 ^ 31) (rest : List Byte) :
    readDatum (stringHead c.length ++ c ++ rest) = .ok (some (.string (Utf8.newString c)), rest) := by
  rw [stringHead, List.append_assoc, List.append_assoc, readDatum, readInt_writeInt, ← List.append_assoc]
  simp only [bind, Except.bind, readString_append hc]
  rfl

theorem readDatum_field (f : Field) (rest : List Byte) : readDatum (f.bytes ++ rest) = .ok (f.value, rest) := by
  cases f with
  | integer v =>
    refine readDatum_wire (d := .integer v) trivial trivial ?_ rest
    rw [wire, List.length_append, length_writeInt, length_writeInt]
    decide
  | long v =>
    refine readDatum_wire (d := .long v) trivial trivial ?_ rest
    rw [wire, List.length_append, length_writeInt, length_writeLong]
    decide
  | string c hc => exact readDatum_string hc rest
  | other t ht =>
    rw [readDatum, Field.bytes, readInt_writeInt]
    simp only [bind, Except.bind, if_neg ht.1, if_neg ht.2.1, if_neg ht.2.2]
    rfl

/-- Every round of the decoder reads a field. -/
theorem field_of_readDatum {buf rest : List Byte} {d : Option Datum} (h : readDatum buf = .ok (d, rest)) :
    ∃ f : Field, buf = f.bytes ++ rest ∧ d = f.value := by
  rcases readDatum_eq h with ⟨v, rfl, rfl⟩ | ⟨v, rfl, rfl⟩ | ⟨c, hc, rfl, rfl⟩ | ⟨t, ht, rfl, rfl⟩
  · exact ⟨.integer v, rfl, rfl⟩
  · exact ⟨.long v, rfl, rfl⟩
  · exact ⟨.string c hc, rfl, rfl⟩
  · exact ⟨.other t ht, rfl, rfl⟩

theorem length_field (f : Field) : 4 ≤ f.bytes.length := by
  cases f with
  | integer v => exact four_le_length_wire (d := .integer v) trivial
  | long v => exact four_le_length_wire (d := .long v) trivial
  | string c hc => rw [Field.bytes, List.length_append, length_stringHead]; omega
  | other t ht => exact Nat.le_of_eq (length_writeInt t).symm

theorem field_ne_nil (f : Field) (rest : List Byte) : f.bytes ++ rest ≠ [] := fun e => by
  have := length_field f
  rw [(List.append_eq_nil_iff.mp e).1] at this
  cases this

/-- An array that is asked for is not larger than the bytes left. -/
theorem arrayRequest_field (f : Field) (rest : List Byte) :
    ∀ a ∈ arrayRequest (f.bytes ++ rest), 0 ≤ a.1 ∧ a.1 ≤ a.2 := by
  intro a ha
  cases f with
  | integer v =>
    rw [arrayRequest, Field.bytes, wire, List.append_assoc, readInt_writeInt] at ha
    cases ha
  | long v =>
    rw [arrayRequest, Field.bytes, wire, List.append_assoc, readInt_writeInt] at ha
    cases ha
  | string c hc =>
    rw [arrayRequest, Field.bytes, stringHead, List.append_assoc, List.append_assoc, readInt_writeInt] at ha
    simp only [if_true, readInt_writeInt, List.mem_singleton] at ha
    rw [ha, BitVec.toInt_eq_toNat_of_lt (by rw [BitVec.toNat_ofNat]; omega), BitVec.toNat_ofNat,
      Nat.mod_eq_of_lt (by omega), List.length_append]
    exact ⟨by omega, by omega⟩
  | other t ht =>
    rw [arrayRequest, Field.bytes, readInt_writeInt] at ha
    simp only [if_neg ht.2.1] at ha
    cases ha

/-- A sequence of fields is read to its end. -/
theorem tracedLoop_fields (fs : List Field) {fuel : Nat} (hf : (fieldBytes fs).length ≤ fuel) :
    ∃ requests, tracedLoop fuel (fieldBytes fs) = .ok (fs.filterMap Field.value, requests, []) ∧
      ∀ a ∈ requests, 0 ≤ a.1 ∧ a.1 ≤ a.2 := by
  induction fs generalizing fuel with
  | nil => cases fuel <;> exact ⟨[], rfl, fun _ h => by cases h⟩
  | cons f fs ih =>
    have hb : fieldBytes (f :: fs) = f.bytes ++ fieldBytes fs := List.flatMap_cons
    have h4 := length_field f
    rw [hb, List.length_append] at hf
    obtain ⟨fuel, rfl⟩ : ∃ n, fuel = n + 1 := ⟨fuel - 1, by omega⟩
    obtain ⟨requests, hr, ha⟩ := @ih fuel (by omega)
    refine ⟨arrayRequest (f.bytes ++ fieldBytes fs) ++ requests, ?_, fun a h => ?_⟩
    · rw [hb, tracedLoop_succ (field_ne_nil f _) (readDatum_field f _), hr]
      cases hv : f.value <;> simp only [Except.map, List.filterMap_cons, hv] <;> rfl
    · rcases List.mem_append.mp h with h | h
      · exact arrayRequest_field f _ a h
      · exact ha a h

/-- What is read to its end is a sequence of fields. -/
theorem fields_of_decoderLoop {fuel : Nat} {buf : List Byte} {ds : List Datum} (hf : buf.length ≤ fuel)
    (h : decoderLoop fuel buf = .ok ds) : ∃ fs, buf = fieldBytes fs := by
  induction fuel generalizing buf ds with
  | zero => exact ⟨[], List.length_eq_zero_iff.mp (Nat.le_zero.mp hf)⟩
  | succ fuel ih =>
    cases buf with
    | nil => exact ⟨[], rfl⟩
    | cons b bs =>
      obtain ⟨⟨d, rest⟩, hd, -⟩ := ok_of_bind h
      have hl := readDatum_length hd
      rw [decoderLoop_succ (List.cons_ne_nil b bs) hd] at h
      obtain ⟨ds', hr, -⟩ := ok_of_map h
      obtain ⟨fs, rfl⟩ := ih (by omega) hr
      obtain ⟨f, hb, -⟩ := field_of_readDatum hd
      exact ⟨f :: fs, hb⟩

/-- Bytes begin with one field at most. -/
theorem field_append_inj {f g : Field} {more rest : List Byte} (h : f.bytes ++ more = g.bytes ++ rest) :
    f = g ∧ more = rest := by
  have hr := readDatum_field f more
  rw [h, readDatum_field] at hr
  obtain ⟨hv, rfl⟩ := Prod.mk.inj (Except.ok.inj hr)
  have hb := List.append_cancel_right h
  refine ⟨?_, rfl⟩
  cases f with
  | integer v => cases g <;> cases hv; rfl
  | long v => cases g <;> cases hv; rfl
  | string c hc =>
    cases g with
    | string c' hc' =>
      obtain ⟨-, rfl⟩ := List.append_inj hb (by rw [length_stringHead, length_stringHead])
      rfl
    | integer v => cases hv
    | long v => cases hv
    | other t ht => cases hv
  | other t ht =>
    cases g with
    | other t' ht' =>
      have ht := congrArg (fun bs => BitVec.ofNat 32 (valueOf bs)) hb
      simp only [Field.bytes, valueOf_writeInt] at ht
      subst ht
      rfl
    | integer v => cases hv
    | long v => cases hv
    | string c hc => cases hv

/-- Fields at the front of a sequence of fields are the first ones of it. -/
theorem prefix_of_fieldBytes {fs gs : List Field} {rest : List Byte} (h : fieldBytes fs ++ rest = fieldBytes gs) :
    fs <+: gs ∧ (rest = [] → fs = gs) := by
  induction fs generalizing gs with
  | nil =>
    refine ⟨List.nil_prefix, fun hr => ?_⟩
    subst hr
    cases gs with
    | nil => rfl
    | cons g gs => exact absurd h.symm (field_ne_nil g _)
  | cons f fs ih =>
    rw [fieldBytes, List.flatMap_cons, List.append_assoc] at h
    cases gs with
    | nil => exact absurd h (field_ne_nil f _)
    | cons g gs =>
      obtain ⟨rfl, hr⟩ := field_append_inj (h.trans List.flatMap_cons)
      obtain ⟨hp, he⟩ := ih hr
      exact ⟨List.cons_prefix_cons.mpr ⟨rfl, hp⟩, fun hn => by rw [he hn]⟩

/-! ## Writing the data back -/

theorem encode_some {ds : List Datum} (h : ∀ d ∈ ds, Plain d) : encode (some ds) = dynamicBuffer (wires ds) := by
  cases ds with
  | nil => rfl
  | cons d ds => simp only [encode, encodeData_eq h, bind, Except.bind]

theorem plain_values {fs : List Field} : ∀ d ∈ fs.filterMap Field.value, Plain d := by
  intro d hd
  obtain ⟨f, -, hv⟩ := List.mem_filterMap.mp hd
  cases f <;> cases hv <;> trivial

/-- A string that is not ASCII is not written back as it was read: the first
U+FFFD written for a byte of it would end in the type of the next field. -/
theorem ascii_of_written {c more rest : List Byte} (hl : (Utf8.newString c).length = c.length)
    (hm : ∀ b ∈ more.head?, b.toNat < 0x80) (h : Utf8.getBytes (Utf8.newString c) ++ rest = c ++ more) :
    ∀ b ∈ c, b.toNat < 0x80 := by
  induction c with
  | nil => intro b hb; cases hb
  | cons b c ih =>
    rcases Nat.lt_or_ge b.toNat 0x80 with hb | hb
    · rw [Utf8.newString_cons_of_lt hb, List.length_cons, List.length_cons] at hl
      rw [Utf8.getBytes_newString_cons hb] at h
      exact List.forall_mem_cons.mpr ⟨hb, ih (Nat.succ.inj hl) (List.cons.inj h).2⟩
    · have hu : Utf8.byteUnit b = Utf8.replacement := if_neg (by omega)
      rw [Utf8.newString_eq_map hl, List.map_cons, hu, Utf8.getBytes_cons (by decide),
        show Utf8.encodeUnit Utf8.replacement = [0xEF, 0xBF, 0xBD] by decide] at h
      obtain ⟨rfl, hrest⟩ : 0xEF = b ∧ _ = c ++ more := List.cons.inj h
      cases c with
      | nil => exact absurd (hm 0xBF (by rw [← List.nil_append more, ← hrest]; rfl)) (by decide)
      | cons b' c =>
        obtain ⟨rfl, -⟩ : 0xBF = b' ∧ _ = c ++ more := List.cons.inj hrest
        exact absurd hl (Nat.ne_of_lt (Utf8.length_newString_lt (decodeAt_two c)))

/-- A field of a type that is read begins with that type. -/
theorem head_known {f : Field} (h : f.Known) (rest : List Byte) : ∀ b ∈ (f.bytes ++ rest).head?, b.toNat < 0x80 := by
  have hb : ∀ t : BitVec 32, t.toNat < 0x80 → ∀ bs : List Byte, ∀ b ∈ (writeInt t ++ bs).head?, b.toNat < 0x80 := by
    intro t ht bs b hb
    obtain rfl := Option.mem_some_iff.mp hb
    rw [BitVec.toNat_ofNat]
    omega
  cases f with
  | integer v =>
    rw [Field.bytes, wire, List.append_assoc]
    exact hb _ (by decide) _
  | long v =>
    rw [Field.bytes, wire, List.append_assoc]
    exact hb _ (by decide) _
  | string c hc =>
    rw [Field.bytes, stringHead, List.append_assoc, List.append_assoc]
    exact hb _ (by decide) _
  | other t ht => exact absurd rfl h

theorem value_of_plain {f : Field} (h : f.Plain) : ∃ d, f.value = some d ∧ wire d = f.bytes := by
  cases f with
  | integer v => exact ⟨_, rfl, rfl⟩
  | long v => exact ⟨_, rfl, rfl⟩
  | string c hc =>
    obtain ⟨h₁, h₂⟩ := Utf8.getBytes_newString_of_ascii h
    exact ⟨_, rfl, by rw [wire, h₁, h₂]; rfl⟩
  | other t ht => exact h.elim

/-- Plain fields are written back. -/
theorem wires_of_plain {fs : List Field} (h : ∀ f ∈ fs, f.Plain) : wires (fs.filterMap Field.value) = fieldBytes fs := by
  induction fs with
  | nil => rfl
  | cons f fs ih =>
    obtain ⟨hf, hfs⟩ := List.forall_mem_cons.mp h
    obtain ⟨d, hv, hw⟩ := value_of_plain hf
    rw [List.filterMap_cons, hv, wires_cons, hw, ih hfs, fieldBytes, fieldBytes, List.flatMap_cons]

/-- Only plain fields are written back. -/
theorem plain_of_wires {fs : List Field} (hk : ∀ f ∈ fs, f.Known)
    (h : wires (fs.filterMap Field.value) = fieldBytes fs) : ∀ f ∈ fs, f.Plain := by
  induction fs with
  | nil => intro f hf; cases hf
  | cons f fs ih =>
    obtain ⟨hf, hfs⟩ := List.forall_mem_cons.mp hk
    have hb : fieldBytes (f :: fs) = f.bytes ++ fieldBytes fs := List.flatMap_cons
    have hmore : ∀ b ∈ (fieldBytes fs).head?, b.toNat < 0x80 := by
      cases fs with
      | nil => intro b hb; cases hb
      | cons g gs =>
        rw [show fieldBytes (g :: gs) = g.bytes ++ fieldBytes gs from List.flatMap_cons]
        exact head_known (hfs g List.mem_cons_self) _
    rw [hb] at h
    refine List.forall_mem_cons.mpr ?_
    cases f with
    | integer v => exact ⟨trivial, ih hfs (List.append_cancel_left h)⟩
    | long v => exact ⟨trivial, ih hfs (List.append_cancel_left h)⟩
    | string c hc =>
      have hle := Utf8.length_decodeFrom_le 0 c
      rw [← Utf8.newString] at hle
      rw [List.filterMap_cons, Field.value, wires_cons, wire, Field.bytes, ← stringHead, List.append_assoc,
        List.append_assoc] at h
      obtain ⟨hhead, h⟩ := List.append_inj h (by rw [length_stringHead, length_stringHead])
      have hlen : (Utf8.newString c).length = c.length := by
        have hi := List.append_cancel_left hhead
        have hv := congrArg (fun bs => (BitVec.ofNat 32 (valueOf bs)).toNat) hi
        simp only [valueOf_writeInt, BitVec.toNat_ofNat] at hv
        omega
      have hc' := ascii_of_written hlen hmore h
      rw [(Utf8.getBytes_newString_of_ascii hc').1] at h
      exact ⟨hc', ih hfs (List.append_cancel_left h)⟩
    | other t ht => exact absurd rfl hf

/-! ## Bodies -/

/-- What is decoded has been read to its end, without asking for an array
larger than the bytes left, and is written back as it was; a field of a type
that is not read is rejected, and so is a body that ends within a field. -/
structure AcceptsExactly (body : List Byte) : Prop where
  accepted : ∀ ds, decoder body = .ok (some ds) → encode (some ds) = .ok body ∧
    ∃ requests, tracedLoop body.length body = .ok (ds, requests, []) ∧ ∀ a ∈ requests, 0 ≤ a.1 ∧ a.1 ≤ a.2
  unknown : ∀ fs rest, body = fieldBytes fs ++ rest → (∃ f ∈ fs, ¬f.Known) → ∃ e, decoder body = .error e
  cutShort : (∀ fs, body ≠ fieldBytes fs) → ∃ e, decoder body = .error e

theorem decoder_eq {body : List Byte} (h : body ≠ []) : decoder body = (decoderLoop body.length body).map some := by
  cases body with
  | nil => exact absurd rfl h
  | cons b bs => rfl

/-- The decoder takes exactly the sequences of fields. -/
theorem decoder_fields {fs : List Field} (h : fieldBytes fs ≠ []) :
    decoder (fieldBytes fs) = .ok (some (fs.filterMap Field.value)) := by
  obtain ⟨requests, hr, -⟩ := tracedLoop_fields fs (Nat.le_refl _)
  rw [decoder_eq h, ← tracedLoop_data, hr]
  rfl

theorem decoder_error {body : List Byte} (h : body ≠ []) (hb : ∀ fs, body ≠ fieldBytes fs) :
    ∃ e, decoder body = .error e := by
  rw [decoder_eq h]
  cases hd : decoderLoop body.length body with
  | error e => exact ⟨e, rfl⟩
  | ok ds =>
    obtain ⟨fs, hfs⟩ := fields_of_decoderLoop (Nat.le_refl _) hd
    exact absurd hfs (hb fs)

theorem known_of_plain {f : Field} (h : f.Plain) : f.Known := by
  obtain ⟨d, hv, -⟩ := value_of_plain h
  rw [Field.Known, hv]
  exact Option.some_ne_none d

/-- A body is accepted exactly, or rejected, as the encoder would have it, if
and only if it is not a sequence of fields, or one of fields that the decoder
reads and whose strings are ASCII. -/
theorem acceptsExactly_iff {body : List Byte} (hne : body ≠ []) (hl : body.length < 2 ^ 31) :
    AcceptsExactly body ↔ ∀ fs, body = fieldBytes fs → ∀ f ∈ fs, f.Plain := by
  constructor
  · rintro ⟨haccepted, hunknown, -⟩ fs rfl
    have hd := decoder_fields hne
    have hk : ∀ f ∈ fs, f.Known := by
      intro f hf
      by_contra hn
      obtain ⟨e, he⟩ := hunknown fs [] (List.append_nil _).symm ⟨f, hf, hn⟩
      cases hd.symm.trans he
    have he := (haccepted _ hd).1
    rw [encode_some plain_values, dynamicBuffer] at he
    split at he
    · exact plain_of_wires hk (Except.ok.inj he)
    · cases he
  · intro hp
    refine ⟨fun ds hds => ?_, ?_, decoder_error hne⟩
    · by_cases hb : ∀ fs, body ≠ fieldBytes fs
      · obtain ⟨e, he⟩ := decoder_error hne hb
        cases he.symm.trans hds
      obtain ⟨fs, hfs⟩ := not_forall_not.mp hb
      subst hfs
      obtain rfl := Option.some.inj (Except.ok.inj ((decoder_fields hne).symm.trans hds))
      obtain ⟨requests, hr, ha⟩ := tracedLoop_fields fs (Nat.le_refl _)
      refine ⟨?_, requests, hr, ha⟩
      rw [encode_some plain_values, wires_of_plain (hp fs rfl), dynamicBuffer, if_pos hl]
    · rintro fs rest hb ⟨f, hf, hn⟩
      apply decoder_error hne
      intro gs hgs
      exact hn (known_of_plain (hp gs hgs f ((prefix_of_fieldBytes (hb.symm.trans hgs)).1.subset hf)))

/-- The body of a registration: its type and a serial number. -/
def registBody : List Field := [.integer 4, .string [0x43, 0x31] (by decide)]

theorem acceptsExactly_registBody : AcceptsExactly (fieldBytes registBody) := by
  apply (acceptsExactly_iff (by decide +kernel) (by decide +kernel)).mpr
  intro fs h f hf
  obtain rfl := (@prefix_of_fieldBytes _ _ [] ((List.append_nil _).trans h)).2 rfl
  rcases List.mem_cons.mp hf with rfl | hf
  · trivial
  · obtain rfl := List.mem_singleton.mp hf
    show ∀ b ∈ ([0x43, 0x31] : List Byte), b.toNat < 0x80
    decide

/-- A field of the type `DataType.ARRAY` is accepted and adds nothing, and a string of the bytes C3 A9 is written
back with a size of one. -/
theorem array_accepted : ¬AcceptsExactly [3, 0, 0, 0] ∧ ¬AcceptsExactly [2, 0, 0, 0, 2, 0, 0, 0, 0xC3, 0xA9] := by
  constructor
  · intro h
    obtain ⟨e, he⟩ := h.unknown [.other DataType.array.getValue (by decide)] [] (by decide)
      ⟨_, List.mem_singleton_self _, fun hk => hk rfl⟩
    have hd : decoder [3, 0, 0, 0] = .ok (some []) := by decide
    cases hd.symm.trans he
  · intro h
    have hd : decoder [2, 0, 0, 0, 2, 0, 0, 0, 0xC3, 0xA9] = .ok (some [.string [0xE9]]) := by decide +kernel
    have he : encode (some [.string [0xE9]]) = .ok [2, 0, 0, 0, 1, 0, 0, 0, 0xC3, 0xA9] := by decide +kernel
    cases he.symm.trans (h.accepted _ hd).1

end XH.Proof.Control
