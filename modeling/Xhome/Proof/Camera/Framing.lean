import Xhome.Impl.Camera.MessageHandler

/-!
# Message framing

`getMsg` takes a message off the stream if its header and its body each come
from one `recv`. Otherwise it returns `NULL` with part of the message read, and
the next call begins in the middle of it. So successive calls return the
messages that were sent if and only if each segment consists of whole headers
and whole bodies (`messages_framed_iff`).
-/

namespace XH.Proof.Camera

open XH.Impl.Camera

/-! ## Headers -/

theorem MsgHeader.length_bytes (h : MsgHeader) : h.bytes.length = sizeofMsgHeader := by
  simp only [MsgHeader.bytes, List.length_append, length_bytesOf]
  rfl

theorem ofBytes_bytes (h : MsgHeader) : MsgHeader.ofBytes h.bytes = h := by
  have e : MsgHeader.ofBytes h.bytes = ⟨.ofNat 16 (valueOf (bytesOf 2 h.id.toNat)),
      .ofNat 16 (valueOf (bytesOf 2 h.size.toNat)), .ofNat 16 (valueOf (bytesOf 2 h.lrc.toNat)),
      .ofNat 16 (valueOf (bytesOf 2 h.reserved.toNat)), .ofNat 32 (valueOf (bytesOf 4 h.referid.toNat))⟩ := rfl
  rw [e, ofNat_valueOf_bytesOf (by decide), ofNat_valueOf_bytesOf (by decide), ofNat_valueOf_bytesOf (by decide),
    ofNat_valueOf_bytesOf (by decide), ofNat_valueOf_bytesOf (by decide)]

theorem bytes_ofBytes {b : List Byte} (hb : b.length = sizeofMsgHeader) : (MsgHeader.ofBytes b).bytes = b := by
  have hl : b.length = 12 := hb
  have hf : ∀ o, o + 2 ≤ 12 → ((b.drop o).take 2).length = 2 := fun o ho => by
    rw [List.length_take, List.length_drop]
    omega
  have h₀ : (b.take 2).length = 2 := hf 0 (by decide)
  have h₈ : ((b.drop 8).take 4).length = 4 := by
    rw [List.length_take, List.length_drop]
    omega
  -- the five fields, cut off one after the other
  have hcut : ∀ o k, (b.drop o).take k ++ b.drop (o + k) = b.drop o := fun o k => by
    rw [← List.drop_drop, List.take_append_drop]
  have hend : (b.drop 8).take 4 = b.drop 8 := List.take_of_length_le (by rw [List.length_drop]; omega)
  rw [MsgHeader.bytes, MsgHeader.ofBytes, bytesOf_ofNat_valueOf (by decide) h₀,
    bytesOf_ofNat_valueOf (by decide) (hf 2 (by decide)), bytesOf_ofNat_valueOf (by decide) (hf 4 (by decide)),
    bytesOf_ofNat_valueOf (by decide) (hf 6 (by decide)), bytesOf_ofNat_valueOf (by decide) h₈, hend, hcut 6 2,
    hcut 4 2, hcut 2 2, List.take_append_drop]

/-! ## One message -/

/-- What `getMsg` asks for: the header, and the body if there is one. -/
def Msg.parts (m : Msg) : List (List Byte) := m.header.bytes :: if m.header.size = 0 then [] else [m.data]

section
variable {m : Msg} {malloc : Bool} {segs segs' rest : List (List Byte)}

theorem header_ne_nil (h : MsgHeader) : h.bytes ≠ [] := fun e => by
  have := MsgHeader.length_bytes h
  rw [e] at this
  cases this

theorem data_eq_nil (h : m.header.size = 0) : m.data = [] := by
  have := m.sized
  rw [h] at this
  exact List.eq_nil_of_length_eq_zero this

theorem data_ne_nil (h : m.header.size ≠ 0) : m.data ≠ [] := fun e => h <| by
  have := m.sized
  rw [e] at this
  exact BitVec.eq_of_toNat_eq this.symm

/-- A body that lies in one segment is received. -/
theorem getBody_of_whole (h : Whole segs ((if m.header.size = 0 then [] else [m.data]) ++ rest)) :
    ∃ segs', getBody m.header segs = some (some m, segs') ∧ Whole segs' rest := by
  obtain ⟨header, data, sized⟩ := m
  dsimp only at h ⊢
  unfold getBody
  by_cases hz : header.size = 0
  · obtain rfl : data = [] := data_eq_nil (m := ⟨header, data, sized⟩) hz
    rw [if_pos hz] at h
    rw [dif_neg (not_not.mpr hz)]
    exact ⟨segs, rfl, h⟩
  · rw [if_neg hz] at h
    obtain ⟨segs', hr, hw⟩ := recv_of_whole (data_ne_nil (m := ⟨header, data, sized⟩) hz) h
    have hr : recv header.size.toNat segs = some (data, segs') := by rw [← sized]; exact hr
    refine ⟨segs', ?_, hw⟩
    rw [dif_pos hz, hr, Option.map_some, dif_pos sized]

theorem getMsg_of_whole (h : Whole segs (Msg.parts m ++ rest)) :
    ∃ segs', getMsg true segs = some (some m, segs') ∧ Whole segs' rest := by
  obtain ⟨segs₁, hr, hw⟩ := recv_of_whole (header_ne_nil m.header) h
  obtain ⟨segs', hb, hw⟩ := getBody_of_whole hw
  refine ⟨segs', ?_, hw⟩
  rw [MsgHeader.length_bytes] at hr
  rw [getMsg, hr, Option.bind_some]
  dsimp only
  rw [if_neg (not_not.mpr (MsgHeader.length_bytes m.header)), if_pos rfl, ofBytes_bytes, hb]

/-- A message that is returned has been received with its body whole. -/
theorem getBody_some {header : MsgHeader} (h : getBody header segs = some (some m, segs')) :
    m.header = header ∧ m.data ++ segs'.flatten = segs.flatten ∧
    ∀ rest, Whole segs' rest → Whole segs ((if header.size = 0 then [] else [m.data]) ++ rest) := by
  unfold getBody at h
  split at h
  · rename_i hz
    obtain ⟨⟨x, s⟩, hr, ho⟩ := Option.map_eq_some_iff.mp h
    dsimp only at ho
    split at ho
    · rename_i hl
      cases ho
      refine ⟨rfl, recv_flatten hr, fun _ hw => ?_⟩
      rw [if_neg hz]
      rw [← hl] at hr
      exact whole_of_recv hr hw
    · cases ho
  · rename_i hz
    cases h
    refine ⟨rfl, rfl, fun _ hw => ?_⟩
    rw [if_pos (not_not.mp hz)]
    exact hw

theorem getMsg_some (h : getMsg malloc segs = some (some m, segs')) :
    malloc = true ∧ m.bytes ++ segs'.flatten = segs.flatten ∧ ∀ rest, Whole segs' rest → Whole segs (Msg.parts m ++ rest) := by
  obtain ⟨⟨x, s⟩, hr, ho⟩ := Option.bind_eq_some_iff.mp h
  dsimp only at ho
  split at ho
  · cases ho
  · rename_i hl
    have hl : x.length = sizeofMsgHeader := not_not.mp hl
    split at ho
    · obtain ⟨hh, hf, hw⟩ := getBody_some ho
      have hx : m.header.bytes = x := by rw [hh, bytes_ofBytes hl]
      refine ⟨‹_›, ?_, fun rest h => ?_⟩
      · rw [Msg.bytes, List.append_assoc, hf, hx, recv_flatten hr]
      · rw [Msg.parts, hx, hh]
        rw [← hl] at hr
        exact whole_of_recv hr (hw rest h)
    · cases ho

end

/-! ## All messages -/

theorem whole_nil {segs : List (List Byte)} (h : segs.flatten = []) : Whole segs [] := by
  refine ⟨segs.map fun _ => [], ?_, by simp⟩
  have hs : ∀ s ∈ segs, s = [] := List.flatten_eq_nil_iff.mp h
  rw [List.map_map]
  conv_rhs => rw [← List.map_id segs]
  exact List.map_congr_left fun s hm => (hs s hm).symm

/-- Messages that lie whole in the segments are returned, one by each call. -/
theorem calls_of_whole {mallocs : List Bool} (hm : ∀ ok ∈ mallocs, ok = true) {ms : List Msg} :
    ∀ {segs : List (List Byte)}, mallocs.length = ms.length → Whole segs (ms.flatMap Msg.parts) →
      calls getMsg mallocs segs = ms.map some := by
  induction mallocs generalizing ms with
  | nil =>
    intro segs hl _
    rw [List.eq_nil_of_length_eq_zero hl.symm]
    rfl
  | cons malloc mallocs ih =>
    intro segs hl hw
    obtain ⟨m, ms, rfl⟩ := List.exists_cons_of_length_eq_add_one hl.symm
    obtain rfl : malloc = true := hm malloc (List.mem_cons_self ..)
    obtain ⟨segs', hg, hw⟩ := getMsg_of_whole hw
    rw [calls, hg]
    show some m :: _ = _
    rw [ih (fun ok ho => hm ok (List.mem_cons_of_mem _ ho)) (Nat.succ.inj hl) hw]
    rfl

/-- Messages that are returned, one by each call, lie whole in the segments. -/
theorem whole_of_calls {ms : List Msg} :
    ∀ {mallocs : List Bool} {segs : List (List Byte)}, segs.flatten = ms.flatMap Msg.bytes → mallocs.length = ms.length →
      calls getMsg mallocs segs = ms.map some → Whole segs (ms.flatMap Msg.parts) ∧ ∀ ok ∈ mallocs, ok = true := by
  induction ms with
  | nil =>
    intro mallocs segs hs hl _
    rw [List.eq_nil_of_length_eq_zero hl]
    exact ⟨whole_nil hs, fun _ h => by cases h⟩
  | cons m ms ih =>
    intro mallocs segs hs hl hc
    obtain ⟨malloc, mallocs, rfl⟩ := List.exists_cons_of_length_eq_add_one hl
    cases hg : getMsg malloc segs with
    | none =>
      rw [calls, hg] at hc
      cases hc
    | some out =>
      obtain ⟨msg, segs'⟩ := out
      rw [calls, hg, List.map_cons, List.cons.injEq] at hc
      obtain ⟨rfl, hc⟩ := hc
      obtain ⟨hok, hf, hw⟩ := getMsg_some hg
      rw [hs, List.flatMap_cons, List.append_cancel_left_eq] at hf
      obtain ⟨hw', hall⟩ := ih hf (Nat.succ.inj hl) hc
      refine ⟨hw _ hw', fun ok ho => ?_⟩
      rcases List.mem_cons.mp ho with rfl | ho
      · exact hok
      · exact hall ok ho

/-- Successive polls answer what successive calls of `getMsg` return. -/
theorem calls_pollMsg (request : MsgHeader) (mallocs : List Bool) (segs : List (List Byte)) :
    calls (pollMsg request) mallocs segs =
      (calls getMsg mallocs segs).map fun msg => (msg.map (answer request)).getD [] := by
  induction mallocs generalizing segs with
  | nil => rfl
  | cons malloc mallocs ih =>
    rw [calls, calls, pollMsg]
    cases getMsg malloc segs with
    | none => rfl
    | some out =>
      show _ :: _ = _ :: _
      rw [ih]

/-- The messages that were sent are returned by successive calls of `getMsg`, in
order, and are what `pollMsg` answers, if and only if each segment of the
stream consists of whole headers and whole bodies and `malloc` has room. -/
theorem messages_framed_iff (request : MsgHeader) {ms : List Msg} {mallocs : List Bool} {segs : List (List Byte)}
    (hs : segs.flatten = ms.flatMap Msg.bytes) (hl : mallocs.length = ms.length) :
    (calls getMsg mallocs segs = ms.map some ∧ calls (pollMsg request) mallocs segs = ms.map (answer request)) ↔
      Whole segs (ms.flatMap Msg.parts) ∧ ∀ ok ∈ mallocs, ok = true := by
  constructor
  · intro h
    exact whole_of_calls hs hl h.1
  · intro h
    have hc := calls_of_whole h.2 hl h.1
    refine ⟨hc, ?_⟩
    rw [calls_pollMsg, hc, List.map_map]
    rfl

/-! ## A split body -/

/-- A handshake without a body. -/
def handshake : MsgHeader := ⟨1, 0, 0, 0, 0⟩

/-- A message with the bytes of a handshake in its body. -/
def forged : Msg := ⟨⟨3, 13, 0, 0, 0⟩, 0 :: handshake.bytes, rfl⟩

theorem messages_framed_iff_whole :
    (calls getMsg [true, true] [forged.header.bytes, forged.data ++ handshake.bytes] = [some forged, some ⟨handshake, [], rfl⟩] ∧
      calls (pollMsg handshake) [true, true] [forged.header.bytes, forged.data ++ handshake.bytes] =
        [answer handshake forged, answer handshake ⟨handshake, [], rfl⟩]) :=
  (@messages_framed_iff handshake [forged, ⟨handshake, [], rfl⟩] [true, true]
    [forged.header.bytes, forged.data ++ handshake.bytes] rfl rfl).mpr
    ⟨⟨[[forged.header.bytes], [forged.data, handshake.bytes]], rfl, rfl⟩, by decide⟩

/-- One message is sent and its body comes in two segments: the first call returns
nothing, and the second one returns the rest of the body as a handshake. -/
theorem body_read_as_header :
    [forged.header.bytes, [0], handshake.bytes].flatten = forged.bytes ∧
    calls getMsg [true, true] [forged.header.bytes, [0], handshake.bytes] = [none, some ⟨handshake, [], rfl⟩] ∧
    ¬ (∀ (ms : List Msg) (segs : List (List Byte)), segs.flatten = ms.flatMap Msg.bytes →
      calls getMsg (ms.map fun _ => true) segs = ms.map some) := by
  refine ⟨rfl, by decide, fun h => ?_⟩
  have := h [forged] [forged.header.bytes, [0], handshake.bytes] rfl
  revert this
  decide

end XH.Proof.Camera
