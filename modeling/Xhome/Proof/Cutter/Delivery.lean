import Xhome.Proof.Cutter.Headers
import Mathlib.Data.List.Forall2

/-!
# What a connection delivers

The tags of a connection are noted as they come in (`Stream`), and with each data
piece posted the tags before it and the tags of it (`Mark`). A step of the parser
that is `clean` keeps the reader in step with what it has received (`Phase`), and
its calls bring each data piece the header piece its mark asks for (`Phase.step`).
A step is not clean if the reader goes on without a sequence header it has
received: with a plain cut while one is buffered, with one still buffered from
the last connection, or with one in the tag that ends the header phase.
-/

namespace XH.Proof.Cutter

open XH.Impl.Cutter

/-! ## What a connection delivers -/

/-- The tags received on the connection, the header of the tag being read, and
the position of the first tag of `piece_ptr_`. -/
structure Stream where
  tags : List (Buffer × Buffer)
  head : Buffer
  first : Nat

/-- A request is answered. -/
def Stream.read (st : Stream) (b : Buffer) : ReadingStat → Stream
  | .head => st
  | .flvTaghead => { st with head := b }
  | .flvTagbody => { st with tags := st.tags ++ [(st.head, b)] }

/-- Data pieces are posted: each has the next tags. -/
def Stream.post (st : Stream) : List Piece → Stream × List Mark
  | [] => (st, [])
  | p :: ps =>
    let out := Stream.post { st with first := st.first + p.length / 2 } ps
    (out.1, ⟨st.tags.take st.first, (st.tags.drop st.first).take (p.length / 2)⟩ :: out.2)

/-- The header piece is posted: the tags at hand are the first data tags. -/
def Stream.begin (st : Stream) (piece : Piece) : Stream := { st with first := st.tags.length - piece.length / 2 }

/-- A step of the parser from `r`, whose buffer is full, with the outcome `o`. -/
def Stream.step (st : Stream) (r : Reader) (o : Out) : Stream × List Mark :=
  match r.stat with
  | .needHead =>
    if o.reader.stat = .needHead then (st.read r.readingBuffer r.readingStat, [])
    else ((st.read r.readingBuffer r.readingStat).begin o.reader.piece, [])
  | .needFlvData => (st.read r.readingBuffer r.readingStat).post (pieces o.calls)

/-- No sequence header is buffered. -/
def Reader.clear (r : Reader) : Bool := r.aacSequenceHeader.isNone && r.avcSequenceHeader.isNone

/-- A plain cut is made at the tag header in the buffer. -/
def plainCut (r : Reader) : Prop := IsMedia r.readingBuffer ∧ r.cutWithKf = false ∧ slotAdvances (placeTag r)

instance (r : Reader) : Decidable (plainCut r) :=
  inferInstanceAs (Decidable ((tagType r.readingBuffer = flvAudiodata ∨ tagType r.readingBuffer = flvVideodata) ∧ _))

/-- The parser's step from `r` leaves no sequence header behind: none of an
earlier connection is buffered when a new one begins, the tag that ends the
header phase is none, and a plain cut is made with none buffered. -/
def clean (r : Reader) : Bool :=
  match r.stat, r.readingStat with
  | .needHead, .head => Reader.clear r
  | .needHead, .flvTagbody =>
    !r.isHeaderOver || !(Codec.aac.heads r.curFlvTagType r.readingBuffer || Codec.avc.heads r.curFlvTagType r.readingBuffer)
  | .needFlvData, .flvTaghead => !decide (plainCut r) || Reader.clear r
  | _, _ => true

/-! ## The reader -/

def buffered (r : Reader) : Codec → Option (Buffer × Buffer)
  | .aac => r.aacSequenceHeader
  | .avc => r.avcSequenceHeader

theorem buffered_of_clear {r : Reader} (h : Reader.clear r = true) (k : Codec) : buffered r k = none := by
  simp only [Reader.clear, Bool.and_eq_true, Option.isNone_iff_eq_none] at h
  cases k with
  | aac => exact h.1
  | avc => exact h.2

/-- What becomes of a tag in the header phase. -/
def keptTag (t : Buffer × Buffer) : Option (Buffer × Buffer) :=
  if tagType t.1 = flvAudiodata then if Codec.aac.isHeader t then some (zeroTs t) else none
  else if tagType t.1 = flvVideodata then if Codec.avc.isHeader t then some (zeroTs t) else none
  else some t

/-- The file header and the tags that stay. -/
def HeaderPiece (tags : List (Buffer × Buffer)) (piece : Piece) : Prop :=
  ∃ fileheader, piece = fileheader :: pairs (tags.filterMap keptTag)

/-- The buffered sequence headers are the last of the piece at hand. -/
def Buffers (r : Reader) (tags : List (Buffer × Buffer)) : Prop :=
  ∀ k, (buffered r k).map zeroTs = (newest k tags).map zeroTs

/-- The reader against what it has received. -/
inductive Phase (r : Reader) (st : Stream) : Prop
  | fileheader : r.stat = .needHead → r.readingStat = .head → r.piece = [] → st.tags = [] → Phase r st
  | headerHead : r.stat = .needHead → r.readingStat = .flvTaghead → (∀ k, buffered r k = none) →
    HeaderPiece st.tags r.piece → Phase r st
  | headerBody {p : Piece} {h : Buffer} : r.stat = .needHead → r.readingStat = .flvTagbody →
    (∀ k, buffered r k = none) → r.curFlvTagType = tagType st.head → r.piece = p ++ [h] → HeaderPiece st.tags p →
    Restamped st.head h → (r.isHeaderOver = false → h = st.head) → Phase r st
  | dataHead : r.stat = .needFlvData → r.readingStat = .flvTaghead → st.first ≤ st.tags.length →
    Buffers r (st.tags.drop st.first) → Holds (st.tags.drop st.first) r.piece → Phase r st
  | dataBody {p : Piece} {h : Buffer} : r.stat = .needFlvData → r.readingStat = .flvTagbody →
    st.first ≤ st.tags.length → Buffers r (st.tags.drop st.first) → r.curFlvTagType = tagType st.head →
    r.piece = p ++ [h] → Holds (st.tags.drop st.first) p → Restamped st.head h → Phase r st

/-- The header piece that the next data piece will find. -/
def Ahead (r : Reader) (st : Stream) (hp : Piece) : Prop := r.stat = .needFlvData → Fresh hp (st.tags.take st.first)

/-! ### Tags and pieces -/

theorem pairs_append (l l' : List (Buffer × Buffer)) : pairs (l ++ l') = pairs l ++ pairs l' := List.flatMap_append

theorem length_pairs (l : List (Buffer × Buffer)) : (pairs l).length = 2 * l.length := by
  induction l with
  | nil => rfl
  | cons t l ih =>
    have hp : pairs (t :: l) = t.1 :: t.2 :: pairs l := rfl
    rw [hp, List.length_cons, List.length_cons, ih, List.length_cons]
    omega

theorem Holds.nil : Holds [] [] := ⟨[], rfl, .nil⟩

theorem Holds.length {tags : List (Buffer × Buffer)} {piece : Piece} (h : Holds tags piece) : piece.length / 2 = tags.length := by
  obtain ⟨ps, rfl, hf⟩ := h
  rw [length_pairs, hf.length_eq]
  omega

theorem Holds.concat {tags : List (Buffer × Buffer)} {piece : Piece} (h : Holds tags piece) {t : Buffer × Buffer} {head : Buffer}
    (hs : Restamped t.1 head) : Holds (tags ++ [t]) (piece ++ [head, t.2]) := by
  obtain ⟨ps, rfl, hf⟩ := h
  refine ⟨ps ++ [(head, t.2)], by rw [pairs_append]; rfl, List.rel_append hf (.cons ⟨rfl, hs⟩ .nil)⟩

theorem HeaderPiece.concat {tags : List (Buffer × Buffer)} {piece : Piece} (h : HeaderPiece tags piece) (t : Buffer × Buffer) :
    HeaderPiece (tags ++ [t]) (piece ++ pairs (keptTag t).toList) := by
  obtain ⟨f, rfl⟩ := h
  refine ⟨f, ?_⟩
  rw [List.filterMap_append, pairs_append]
  cases hk : keptTag t with
  | none => simp [hk]
  | some p => simp [hk]

theorem isHeader_of_keptTag {k : Codec} {t p : Buffer × Buffer} (h : keptTag t = some p) (hk : k.isHeader p = true) : zeroTs t = p := by
  unfold keptTag at h
  split at h
  · split at h
    · exact Option.some.inj h
    · cases h
  · split at h
    · split at h
      · exact Option.some.inj h
      · cases h
    · cases h
      have hty := Codec.type_of_isHeader hk
      cases k with
      | aac => exact absurd hty ‹_›
      | avc => exact absurd hty ‹_›

theorem keptTag_of_isHeader {k : Codec} {t : Buffer × Buffer} (hk : k.isHeader t = true) : keptTag t = some (zeroTs t) := by
  unfold keptTag
  cases k with
  | aac =>
    have hty : tagType t.1 = flvAudiodata := Codec.type_of_isHeader hk
    rw [if_pos hty, if_pos hk]
  | avc =>
    have hty : tagType t.1 = flvVideodata := Codec.type_of_isHeader hk
    rw [if_neg (by rw [hty]; decide), if_pos hty, if_pos hk]

/-- The header piece of a connection carries its sequence headers. -/
theorem HeaderPiece.fresh {tags : List (Buffer × Buffer)} {piece : Piece} (h : HeaderPiece tags piece) : Fresh piece tags := by
  obtain ⟨f, rfl⟩ := h
  refine ⟨f, _, rfl, fun k t e => ?_, fun k p hm hk => ?_⟩
  · obtain ⟨hm, hk⟩ := newest_mem e
    exact ⟨hk, List.mem_filterMap.mpr ⟨t, hm, keptTag_of_isHeader hk⟩⟩
  · obtain ⟨t, hm, ht⟩ := List.mem_filterMap.mp hm
    exact ⟨t, hm, isHeader_of_keptTag ht hk⟩

/-! ### A step of the parser -/

/-- The message of a call. -/
def msgOf (leaving : Bool) : Call → Msg
  | .asyncWritePiece piece seek ts => .writePiece leaving piece seek ts
  | .asyncUpdateHeader head body => .updateHeader head body
  | .readerError => .readerError

/-- The reader goes on in step with what it has received, and its calls keep the
header piece ahead of the data pieces. -/
structure Stepped (r : Reader) (st : Stream) (o : Out) : Prop where
  phase : Phase o.reader (st.step r o).1
  served : ∀ hp, Ahead r st hp → Served (Ahead o.reader (st.step r o).1)
    (o.calls.map (msgOf (leavesNeedHead r o.reader))) (st.step r o).2 hp

section
variable {r : Reader} {st : Stream}

theorem step_needHead {o : Out} (hs : r.stat = .needHead) (ho : o.reader.stat = .needHead) :
    st.step r o = (st.read r.readingBuffer r.readingStat, []) := by
  simp only [Stream.step, hs, ho, ite_true]

theorem step_leave {o : Out} (hs : r.stat = .needHead) (ho : o.reader.stat = .needFlvData) :
    st.step r o = ((st.read r.readingBuffer r.readingStat).begin o.reader.piece, []) := by
  simp only [Stream.step, hs, ho, reduceCtorEq, ite_false]

theorem step_needFlvData {o : Out} (hs : r.stat = .needFlvData) :
    st.step r o = (st.read r.readingBuffer r.readingStat).post (pieces o.calls) := by
  simp only [Stream.step, hs]

/-- A step inside the header phase. -/
theorem stepped_needHead {o : Out} (hs : r.stat = .needHead) (ho : o.reader.stat = .needHead) (hc : o.calls = [])
    (hp : Phase o.reader (st.read r.readingBuffer r.readingStat)) : Stepped r st o := by
  refine ⟨by rw [step_needHead hs ho]; exact hp, fun hp _ => ?_⟩
  rw [step_needHead hs ho, hc]
  exact ⟨rfl, fun h => absurd (ho.symm.trans h) (by decide)⟩

/-- The file header of a connection. -/
theorem stepped_fileheader (hs : r.stat = .needHead) (hr : r.readingStat = .head) (hp : r.piece = []) (ht : st.tags = [])
    (hc : clean r = true) (hres : (parse r).resume = true) : Stepped r st (parse r) := by
  have he : parse r = needHeadHead r := by simp only [parse, hs, hr]
  have hclear : Reader.clear r = true := by simpa only [clean, hs, hr] using hc
  rw [he, needHeadHead] at hres ⊢
  split at hres
  · rename_i hf
    rw [if_pos hf]
    refine stepped_needHead hs hs rfl (.headerHead hs rfl (buffered_of_clear (r := r) hclear) ⟨r.readingBuffer, ?_⟩)
    simp only [Stream.read, hr, ht, hp]
    rfl
  · cases hres

/-- A tag header of the header phase. -/
theorem stepped_headerHead (hs : r.stat = .needHead) (hr : r.readingStat = .flvTaghead)
    (hb : ∀ k, buffered r k = none) (hp : HeaderPiece st.tags r.piece) : Stepped r st (parse r) := by
  have he : parse r = needHeadTaghead r := by simp only [parse, hs, hr]
  obtain ⟨u, hu, hst, hover⟩ := needHeadTaghead_cases r
  have hus : (pushTagHead u).stat = .needHead := hst.stat.trans hs
  have hub : ∀ k, buffered (pushTagHead u) k = none := fun k => by
    cases k with
    | aac => exact hst.aac.trans (hb .aac)
    | avc => exact hst.avc.trans (hb .avc)
  have hpiece : (pushTagHead u).piece = r.piece ++ [u.readingBuffer] :=
    show u.piece ++ [u.readingBuffer] = _ by rw [hst.piece]; rfl
  rw [he, hu]
  refine stepped_needHead hs hus rfl (.headerBody hus rfl hub ?_ hpiece ?_ ?_ fun hover' => ?_)
  · rw [hr]; exact hst.curFlvTagType
  · rw [hr]; exact hp
  · rw [hr]; exact hst.readingBuffer
  · rw [hr]
    rcases hover with ⟨-, -, h⟩ | rfl
    · exact absurd (h.symm.trans hover') (by decide)
    · rfl

/-- What the body of a tag does to the piece in the header phase. -/
theorem headTag_piece {p : Piece} {h : Buffer} (hp : r.piece = p ++ [h]) (hty : r.curFlvTagType = tagType h) :
    (keepTag (headTag r).1 (headTag r).2).piece = p ++ pairs (keptTag (h, r.readingBuffer)).toList ∧
      ∀ k, buffered (headTag r).1 k = buffered r k := by
  have hz : zeroLastTs (p ++ [h]) = p ++ [setTagTs h 0] := by simp [zeroLastTs]
  unfold headTag keepTag keptTag
  simp only [hty, Codec.isHeader, Codec.heads, Codec.type, Codec.codes]
  by_cases h₁ : tagType h = flvAudiodata
  · by_cases h₂ : isAac r.readingBuffer = true
    · by_cases h₃ : isSequenceHeader r.readingBuffer = true
      · refine ⟨by simp [h₁, h₂, h₃, hp, hz, pairs, zeroTs], fun k => ?_⟩
        cases k <;> simp [h₁, h₂, h₃, buffered]
      · refine ⟨by simp [h₁, h₂, h₃, hp, pairs], fun k => by simp [h₁, h₂, h₃]⟩
    · refine ⟨by simp [h₁, h₂, hp, pairs], fun k => ?_⟩
      cases k <;> simp [h₁, h₂, buffered]
  · by_cases h₀ : tagType h = flvVideodata
    · have hne : ¬ flvVideodata = flvAudiodata := by decide
      by_cases h₂ : isAvc r.readingBuffer = true
      · by_cases h₃ : isSequenceHeader r.readingBuffer = true
        · refine ⟨by simp [hne, h₀, h₂, h₃, hp, hz, pairs, zeroTs], fun k => ?_⟩
          cases k <;> simp [hne, h₀, h₂, h₃, buffered]
        · refine ⟨by simp [hne, h₀, h₂, h₃, hp, pairs], fun k => by simp [hne, h₀, h₂, h₃]⟩
      · refine ⟨by simp [hne, h₀, h₂, hp, pairs], fun k => ?_⟩
        cases k <;> simp [hne, h₀, h₂, buffered]
    · exact ⟨by simp [h₁, h₀, hp, pairs], fun k => by simp [h₁, h₀]⟩

/-- The header piece is posted. -/
theorem stepped_leave {o : Out} (hp : Piece) (hs : r.stat = .needHead) (ho : o.reader.stat = .needFlvData)
    (hc : o.calls = [.asyncWritePiece hp 0 0]) (hf : Ahead o.reader (st.step r o).1 hp) (hphase : Phase o.reader (st.step r o).1) :
    Stepped r st o := by
  refine ⟨hphase, fun hp' _ => ?_⟩
  have hl : leavesNeedHead r o.reader = true := by simp [leavesNeedHead, hs, ho]
  have hm : (st.step r o).2 = [] := by rw [step_leave hs ho]
  rw [hl, hc, hm]
  exact ⟨rfl, hf⟩

theorem read_flvTagbody (hr : r.readingStat = .flvTagbody) :
    st.read r.readingBuffer r.readingStat = { st with tags := st.tags ++ [(st.head, r.readingBuffer)] } := by
  rw [hr]
  rfl

/-- The tag ends the header phase and begins the first data piece. -/
theorem stepped_headerOver {p : Piece} {h : Buffer} (hs : r.stat = .needHead) (hr : r.readingStat = .flvTagbody)
    (hb : ∀ k, buffered r k = none) (hp : r.piece = p ++ [h]) (hh : HeaderPiece st.tags p) (hst : Restamped st.head h)
    (hno : ∀ k : Codec, k.isHeader (st.head, r.readingBuffer) = false) :
    Stepped r st ⟨nextTag (postHeaderOver r), [.asyncWritePiece r.piece.dropLast 0 0], true⟩ := by
  have hpiece : (nextTag (postHeaderOver r)).piece = [h, r.readingBuffer] :=
    show r.piece.getLast?.toList ++ [r.readingBuffer] = _ by rw [hp, List.getLast?_concat]; rfl
  have hstep : (st.step r ⟨nextTag (postHeaderOver r), [.asyncWritePiece r.piece.dropLast 0 0], true⟩).1 =
      ⟨st.tags ++ [(st.head, r.readingBuffer)], st.head, st.tags.length⟩ := by
    rw [step_leave hs rfl, read_flvTagbody hr]
    simp [Stream.begin, hpiece]
  refine stepped_leave p hs rfl (by rw [hp, List.dropLast_concat]) ?_ ?_
  · rw [hstep]
    intro _
    simp only [List.take_left']
    exact hh.fresh
  · rw [hstep]
    refine .dataHead rfl rfl (by simp) (fun k => ?_) ?_
    · simp only [List.drop_left', newest_singleton, hno k, Bool.false_eq_true, ite_false, Option.map_none]
      exact congrArg (Option.map zeroTs) (hb k)
    · simp only [List.drop_left', hpiece]
      exact Holds.nil.concat (t := (st.head, r.readingBuffer)) hst

/-- Both heads are there: the data pieces begin behind them. -/
theorem stepped_postHeads {q : Reader} (hs : r.stat = .needHead) (hr : r.readingStat = .flvTagbody)
    (hbuf : ∀ k, buffered q k = none) (hh : HeaderPiece (st.tags ++ [(st.head, r.readingBuffer)]) q.piece) :
    Stepped r st ⟨nextTag (postHeads q), [.asyncWritePiece q.piece 0 0], true⟩ := by
  have hstep : (st.step r ⟨nextTag (postHeads q), [.asyncWritePiece q.piece 0 0], true⟩).1 =
      ⟨st.tags ++ [(st.head, r.readingBuffer)], st.head, (st.tags ++ [(st.head, r.readingBuffer)]).length⟩ := by
    have hnil : (nextTag (postHeads q)).piece = [] := rfl
    rw [step_leave hs rfl, read_flvTagbody hr]
    simp only [Stream.begin, hnil, List.length_nil, Nat.zero_div, Nat.sub_zero]
  refine stepped_leave _ hs rfl rfl ?_ ?_
  · rw [hstep]
    intro _
    simp only [List.take_length]
    exact hh.fresh
  · rw [hstep]
    refine .dataHead rfl rfl le_rfl (fun k => ?_) ?_
    · simp only [List.drop_length]
      exact congrArg (Option.map zeroTs) (hbuf k)
    · simp only [List.drop_length]
      exact .nil

/-- The body of a tag of the header phase. -/
theorem stepped_headerBody {p : Piece} {h : Buffer} (hs : r.stat = .needHead) (hr : r.readingStat = .flvTagbody)
    (hb : ∀ k, buffered r k = none) (hty : r.curFlvTagType = tagType st.head) (hp : r.piece = p ++ [h])
    (hh : HeaderPiece st.tags p) (hst : Restamped st.head h) (ho : r.isHeaderOver = false → h = st.head)
    (hc : clean r = true) : Stepped r st (parse r) := by
  have he : parse r = needHeadTagbody r := by simp only [parse, hs, hr]
  rw [he, needHeadTagbody]
  by_cases hover : r.isHeaderOver = true
  · rw [if_pos hover]
    apply stepped_headerOver hs hr hb hp hh hst
    intro k
    simp only [clean, hs, hr, hover, hty, Bool.not_true, Bool.false_or, Bool.not_eq_true', Bool.or_eq_false_iff] at hc
    cases k with
    | aac => exact hc.1
    | avc => exact hc.2
  · rw [if_neg hover]
    obtain rfl := ho (Bool.eq_false_iff.mpr hover)
    obtain ⟨hpiece, hbuf⟩ := headTag_piece hp hty
    have hh' := hh.concat (st.head, r.readingBuffer)
    rw [← hpiece] at hh'
    have hbuf' : ∀ k, buffered (keepTag (headTag r).1 (headTag r).2) k = none := fun k => (hbuf k).trans (hb k)
    dsimp only
    split
    · exact stepped_postHeads hs hr hbuf' hh'
    · have hns : (keepTag (headTag r).1 (headTag r).2).stat = .needHead := (headTag_frame r).1.trans hs
      refine stepped_needHead hs hns rfl (.headerHead hns rfl hbuf' ?_)
      rw [read_flvTagbody hr]
      exact hh'

/-- A tag header of the data phase without a cut. -/
theorem stepped_append {q : Reader} {cs : List Call} (hs : r.stat = .needFlvData) (hr : r.readingStat = .flvTaghead)
    (hf : st.first ≤ st.tags.length) (hb : Buffers r (st.tags.drop st.first)) (hp : Holds (st.tags.drop st.first) r.piece)
    (hqs : q.stat = r.stat) (hqp : q.piece = r.piece) (hqb : ∀ k, buffered q k = buffered r k)
    (hqt : q.curFlvTagType = tagType r.readingBuffer) (hst : Restamped r.readingBuffer q.readingBuffer) (hc : cs = []) :
    Stepped r st ⟨appendTagHead q, cs, true⟩ := by
  subst hc
  have hstep : st.step r ⟨appendTagHead q, [], true⟩ = ({ st with head := r.readingBuffer }, []) := by
    rw [step_needFlvData hs, hr]
    rfl
  refine ⟨?_, fun hp' ha => ?_⟩
  · rw [hstep]
    refine .dataBody (p := r.piece) (h := q.readingBuffer) (hqs.trans hs) rfl hf (fun k => ?_) hqt ?_ hp hst
    · have hk : buffered (appendTagHead q) k = buffered q k := by cases k <;> rfl
      rw [hk, hqb k]
      exact hb k
    · show q.piece ++ [q.readingBuffer] = _
      rw [hqp]
  · rw [hstep]
    exact ⟨rfl, fun _ => ha hs⟩

/-- A plain cut, with no sequence header buffered. -/
theorem stepped_plainCut {q : Reader} {seek ts : Nat} (hs : r.stat = .needFlvData) (hr : r.readingStat = .flvTaghead)
    (hf : st.first ≤ st.tags.length) (hb : Buffers r (st.tags.drop st.first)) (hp : Holds (st.tags.drop st.first) r.piece)
    (hclear : ∀ k, buffered r k = none) (hqs : q.stat = r.stat) (hqp : q.piece = []) (hqb : ∀ k, buffered q k = buffered r k)
    (hqt : q.curFlvTagType = tagType r.readingBuffer) (hst : Restamped r.readingBuffer q.readingBuffer) :
    Stepped r st ⟨appendTagHead q, [.asyncWritePiece r.piece seek ts], true⟩ := by
  have hlen : st.first + r.piece.length / 2 = st.tags.length := by
    rw [hp.length, List.length_drop]
    omega
  have hnone : ∀ k, newest k (st.tags.drop st.first) = none := fun k => by
    have := hb k
    rw [hclear k] at this
    exact Option.map_eq_none_iff.mp this.symm
  have hl : leavesNeedHead r (appendTagHead q) = false := by simp [leavesNeedHead, hs]
  have hstep : st.step r ⟨appendTagHead q, [.asyncWritePiece r.piece seek ts], true⟩ =
      (⟨st.tags, r.readingBuffer, st.tags.length⟩, [⟨st.tags.take st.first, st.tags.drop st.first⟩]) := by
    rw [step_needFlvData hs, hr]
    have htake : (st.tags.drop st.first).take (r.piece.length / 2) = st.tags.drop st.first :=
      List.take_of_length_le (by rw [hp.length])
    simp only [Stream.read, pieces, List.filterMap_cons, List.filterMap_nil, Stream.post, hlen, htake]
  refine ⟨?_, fun hp' ha => ?_⟩
  · rw [hstep]
    refine .dataBody (p := []) (h := q.readingBuffer) (hqs.trans hs) rfl le_rfl (fun k => ?_) hqt ?_ ?_ hst
    · have hk : buffered (appendTagHead q) k = buffered q k := by cases k <;> rfl
      rw [hk, hqb k, hclear k]
      simp only [List.drop_length]
      rfl
    · show q.piece ++ [q.readingBuffer] = _
      rw [hqp]
    · simp only [List.drop_length]
      exact .nil
  · rw [hstep, hl]
    refine ⟨_, _, rfl, ha hs, hp, rfl, fun _ => ?_⟩
    simp only [List.take_length]
    refine (ha hs).mono (fun k => ?_) fun t ht => List.mem_of_mem_take ht
    have : newest k st.tags = newest k (st.tags.take st.first ++ st.tags.drop st.first) := by rw [List.take_append_drop]
    rw [this, newest_append, hnone k]
    rfl

/-- A tag header of the data phase. -/
theorem stepped_dataHead (hs : r.stat = .needFlvData) (hr : r.readingStat = .flvTaghead) (hf : st.first ≤ st.tags.length)
    (hb : Buffers r (st.tags.drop st.first)) (hp : Holds (st.tags.drop st.first) r.piece) (hc : clean r = true)
    (hres : (parse r).resume = true) : Stepped r st (parse r) := by
  have he : parse r = flvDataTaghead r := by simp only [parse, hs, hr]
  have hst := Stamps.placeTag r
  have hbuf : ∀ k, buffered (placeTag r) k = buffered r k := fun k => by
    cases k with
    | aac => exact hst.aac
    | avc => exact hst.avc
  rw [he, flvDataTaghead] at hres ⊢
  split at hres
  · rename_i hm
    rw [if_pos hm]
    by_cases ha : slotAdvances (placeTag r)
    · rw [cutTag_of_advances ha]
      obtain ⟨hfb, hfk, hfs, hft, hfa, hfv, -⟩ := advanceSlot_frame (placeTag r)
      have hbuf' : ∀ k, buffered (advanceSlot (placeTag r)).1 k = buffered r k := fun k => by
        cases k with
        | aac => exact hfa.trans (hbuf .aac)
        | avc => exact hfv.trans (hbuf .avc)
      rcases advanceSlot_cases (placeTag r) with ⟨-, hcs, hps⟩ | ⟨hkf, hcs, hps⟩
      · exact stepped_append hs hr hf hb hp (hfs.trans hst.stat) (hps.trans hst.piece) hbuf' (hft.trans hst.curFlvTagType)
          (hfb ▸ hst.readingBuffer) hcs
      · have hclear : Reader.clear r = true := by
          have hcut : plainCut r := ⟨hm, hst.cutWithKf.symm.trans hkf, ha⟩
          simpa only [clean, hs, hr, hcut, decide_true, Bool.not_true, Bool.false_or] using hc
        have hpp : (placeTag r).piece = r.piece := hst.piece
        dsimp only
        rw [hcs, hpp]
        exact stepped_plainCut hs hr hf hb hp (buffered_of_clear hclear) (hfs.trans hst.stat) hps hbuf'
          (hft.trans hst.curFlvTagType) (hfb ▸ hst.readingBuffer)
    · rcases cutTag_of_not_advances ha with e | e
      · rw [e]
        exact stepped_append hs hr hf hb hp hst.stat hst.piece hbuf hst.curFlvTagType hst.readingBuffer rfl
      · rw [e] at hres
        cases hres
  · rename_i hm
    rw [if_neg hm]
    exact stepped_append hs hr hf hb hp rfl rfl (fun k => by cases k <;> rfl) rfl (.refl _) rfl

/-- What the body of a tag of the data phase does: a sequence header is buffered;
another tag may cut at a key frame. -/
theorem dataTag_headers (r : Reader) :
    (∃ k : Codec, k.heads r.curFlvTagType r.readingBuffer = true ∧ (dataTag r).2 = [] ∧ (dataTag r).1.piece = r.piece ∧
      buffered (dataTag r).1 k = bufferedTag r ∧ ∀ k', k' ≠ k → buffered (dataTag r).1 k' = buffered r k') ∨
    ((∀ k : Codec, k.heads r.curFlvTagType r.readingBuffer = false) ∧
      (dataTag r = cutAtKeyFrame r ∨
        (dataTag r).2 = [] ∧ (dataTag r).1.piece = r.piece ∧ ∀ k, buffered (dataTag r).1 k = buffered r k)) := by
  by_cases h₁ : r.curFlvTagType = flvAudiodata
  · by_cases h₂ : isAac r.readingBuffer = true ∧ isSequenceHeader r.readingBuffer = true
    · have e : dataTag r = ({ r with aacSequenceHeader := bufferedTag r }, []) := by rw [dataTag, if_pos h₁, if_pos h₂]
      refine .inl ⟨.aac, by simp [Codec.heads, Codec.type, Codec.codes, h₁, h₂], by rw [e], by rw [e], by rw [e]; rfl, ?_⟩
      intro k' hk
      cases k' with
      | aac => exact absurd rfl hk
      | avc => rw [e]; rfl
    · have e : dataTag r = (r, []) := by rw [dataTag, if_pos h₁, if_neg h₂]
      refine .inr ⟨fun k => ?_, .inr ⟨by rw [e], by rw [e], fun k => by rw [e]⟩⟩
      cases k with
      | aac =>
        rw [Bool.eq_false_iff]
        intro h
        simp only [Codec.heads, Codec.codes, Bool.and_eq_true] at h
        exact h₂ ⟨h.1.2, h.2⟩
      | avc => simp [Codec.heads, Codec.type, h₁, flvAudiodata, flvVideodata]
  · have haac : Codec.aac.heads r.curFlvTagType r.readingBuffer = false := by
      simp [Codec.heads, Codec.type, h₁]
    by_cases h₀ : r.curFlvTagType = flvVideodata
    · by_cases h₂ : isAvc r.readingBuffer = true ∧ isSequenceHeader r.readingBuffer = true
      · have e : dataTag r = ({ r with avcSequenceHeader := bufferedTag r, cutWithKf := r.needCutWithKf }, []) := by
          rw [dataTag, if_neg h₁, if_pos h₀, if_pos h₂]
        refine .inl ⟨.avc, by simp [Codec.heads, Codec.type, Codec.codes, h₀, h₂], by rw [e], by rw [e], by rw [e]; rfl, ?_⟩
        intro k' hk
        cases k' with
        | aac => rw [e]; rfl
        | avc => exact absurd rfl hk
      · have e : dataTag r = keyFrame r := by rw [dataTag, if_neg h₁, if_pos h₀, if_neg h₂]
        refine .inr ⟨fun k => ?_, ?_⟩
        · cases k with
          | aac => exact haac
          | avc =>
            rw [Bool.eq_false_iff]
            intro h
            simp only [Codec.heads, Codec.codes, Bool.and_eq_true] at h
            exact h₂ ⟨h.1.2, h.2⟩
        · rw [e, keyFrame]
          split
          · split
            · split
              · exact .inl rfl
              · exact .inr ⟨rfl, rfl, fun _ => rfl⟩
            · exact .inr ⟨rfl, rfl, fun k => by cases k <;> rfl⟩
          · exact .inr ⟨rfl, rfl, fun _ => rfl⟩
    · have e : dataTag r = (r, []) := by rw [dataTag, if_neg h₁, if_neg h₀]
      refine .inr ⟨fun k => ?_, .inr ⟨by rw [e], by rw [e], fun k => by rw [e]⟩⟩
      cases k with
      | aac => exact haac
      | avc => simp [Codec.heads, Codec.type, h₀]

/-- Empty pieces are posted. -/
theorem post_empty (st : Stream) (n : Nat) :
    st.post (List.replicate n []) = (st, List.replicate n ⟨st.tags.take st.first, []⟩) := by
  induction n with
  | zero => rfl
  | succ n ih => simp only [List.replicate_succ, Stream.post, List.length_nil, Nat.zero_div, Nat.add_zero, ih, List.take_zero]

theorem served_empty {Q : Piece → Prop} {before : List (Buffer × Buffer)} {hp : Piece} (hf : Fresh hp before) (hq : Q hp) :
    ∀ n, Served Q (List.replicate n (.writePiece false [] 0 0)) (List.replicate n ⟨before, []⟩) hp
  | 0 => ⟨rfl, hq⟩
  | n + 1 => ⟨_, _, rfl, hf, .nil, served_empty hf hq n⟩

/-- The update of one codec, if one is buffered. -/
theorem served_update {Q : Piece → Prop} {q : List Msg} {ms : List Mark} {hp : Piece} {k : Codec}
    {want : Codec → Option (Buffer × Buffer)} {own : Buffer × Buffer → Prop} {b new : Option (Buffer × Buffer)}
    (h : Carries hp want own) (hb : b.map zeroTs = new.map zeroTs) (hn : ∀ t, new = some t → k.isHeader t = true ∧ own t)
    (hq : ∀ hp', Carries hp' (fun k' => if k' = k then new.or (want k) else want k') own → Served Q q ms hp') :
    Served Q (b.toList.map (fun t => .updateHeader t.1 t.2) ++ q) ms hp := by
  cases new with
  | none =>
    have hb' : b = none := Option.map_eq_none_iff.mp hb
    subst hb'
    refine hq hp (h.mono (fun k' => ?_) fun _ ht => ht)
    split
    · rename_i e; rw [e]; rfl
    · rfl
  | some t =>
    cases b with
    | none => cases hb
    | some b =>
      have hz : zeroTs b = zeroTs t := Option.some.inj hb
      exact fun hp' hu => hq hp' (updated_carries h (hn t rfl).1 hz (hn t rfl).2 hu)

/-- The updates of a cut at a key frame bring the sequence headers of the piece. -/
theorem served_updates {Q : Piece → Prop} {q : List Msg} {ms : List Mark} {hp : Piece} {before rest : List (Buffer × Buffer)}
    (h : Fresh hp before) (hb : Buffers r rest) (hq : ∀ hp', Fresh hp' (before ++ rest) → Served Q q ms hp') :
    Served Q ((updateHeaders r).map (msgOf false) ++ q) ms hp := by
  have hcalls : (updateHeaders r).map (msgOf false) ++ q = r.aacSequenceHeader.toList.map (fun t => .updateHeader t.1 t.2) ++
      (r.avcSequenceHeader.toList.map (fun t => .updateHeader t.1 t.2) ++ q) := by
    simp only [updateHeaders, List.map_append, List.map_map, List.append_assoc]
    rfl
  have hown : ∀ (k : Codec) t, newest k rest = some t → k.isHeader t = true ∧ t ∈ before ++ rest := fun k t e =>
    ⟨(newest_mem e).2, List.mem_append_right _ (newest_mem e).1⟩
  have h₀ : Carries hp (newest · before) (· ∈ before ++ rest) := h.mono (fun _ => rfl) fun t ht => List.mem_append_left _ ht
  rw [hcalls]
  apply served_update h₀ (hb .aac) (hown .aac)
  intro hp₁ h₁
  refine served_update h₁ (hb .avc) (hown .avc) fun hp₂ h₂ => hq hp₂ (h₂.mono (fun k => ?_) fun _ ht => ht)
  rw [newest_append]
  cases k with
  | aac => rfl
  | avc => rfl

theorem post_append (st : Stream) (ps ps' : List Piece) :
    st.post (ps ++ ps') = (((st.post ps).1.post ps').1, (st.post ps).2 ++ ((st.post ps).1.post ps').2) := by
  induction ps generalizing st with
  | nil => rfl
  | cons p ps ih => simp only [List.cons_append, Stream.post, ih]

theorem insertEmptyPieces_buffered (r : Reader) (k : Codec) : buffered (insertEmptyPieces r).1 k = buffered r k := by
  unfold insertEmptyPieces
  split
  · cases k <;> rfl
  · rfl

/-- The end of a tag of the data phase, with the pieces and updates of its body. -/
theorem stepped_body {st₁ : Stream} (ms : List Mark) (hs : r.stat = .needFlvData) (hr : r.readingStat = .flvTagbody)
    (hpost : (st.read r.readingBuffer r.readingStat).post (pieces (dataTag r).2) = (st₁, ms))
    (hf : st₁.first ≤ st₁.tags.length) (hb : Buffers (dataTag r).1 (st₁.tags.drop st₁.first))
    (hp : Holds (st₁.tags.drop st₁.first) ((dataTag r).1.piece ++ [r.readingBuffer]))
    (hserved : ∀ hp, Fresh hp (st.tags.take st.first) →
      Served (fun hp => Fresh hp (st₁.tags.take st₁.first)) ((dataTag r).2.map (msgOf false)) ms hp) :
    Stepped r st (parse r) := by
  have he : parse r = flvDataTagbody r := by simp only [parse, hs, hr]
  obtain ⟨hpc, n, hn⟩ := insertEmptyPieces_cases (dataTag r).1
  obtain ⟨hes, -, heb, -⟩ := insertEmptyPieces_frame (dataTag r).1
  obtain ⟨hds, -, hdb, -⟩ := dataTag_frame r
  have hmsgs : (List.replicate n (Call.asyncWritePiece [] 0 0)).map (msgOf false) = List.replicate n (.writePiece false [] 0 0) :=
    List.map_replicate
  have hstep : st.step r (flvDataTagbody r) = (st₁, ms ++ List.replicate n ⟨st₁.tags.take st₁.first, []⟩) := by
    have hc : (flvDataTagbody r).calls = (dataTag r).2 ++ (insertEmptyPieces (dataTag r).1).2 := rfl
    rw [step_needFlvData hs, hc, pieces_append, hn, pieces_empty n, post_append, hpost, post_empty]
  have hstat : (flvDataTagbody r).reader.stat = .needFlvData := hes.trans (hds.trans hs)
  rw [he]
  refine ⟨?_, fun hp' ha => ?_⟩
  · rw [hstep]
    refine .dataHead hstat rfl hf (fun k => ?_) ?_
    · have hk : buffered (flvDataTagbody r).reader k = buffered (insertEmptyPieces (dataTag r).1).1 k := by cases k <;> rfl
      rw [hk, insertEmptyPieces_buffered]
      exact hb k
    · show Holds _ ((insertEmptyPieces (dataTag r).1).1.piece ++ [(insertEmptyPieces (dataTag r).1).1.readingBuffer])
      rw [hpc, heb, hdb]
      exact hp
  · have hl : leavesNeedHead r (flvDataTagbody r).reader = false := by simp [leavesNeedHead, hs]
    have hc : (flvDataTagbody r).calls = (dataTag r).2 ++ (insertEmptyPieces (dataTag r).1).2 := rfl
    rw [hstep, hl, hc, List.map_append, hn, hmsgs]
    exact (hserved hp' (ha hs)).append _ _ fun hp h => served_empty h (fun _ => h) n

/-- Without a cut the tag joins the piece at hand. -/
theorem stepped_joined {p : Piece} {h : Buffer} (hs : r.stat = .needFlvData) (hr : r.readingStat = .flvTagbody)
    (hf : st.first ≤ st.tags.length) (hp : r.piece = p ++ [h]) (hh : Holds (st.tags.drop st.first) p)
    (hst : Restamped st.head h) (hc : (dataTag r).2 = []) (hpc : (dataTag r).1.piece = r.piece)
    (hbuf : Buffers (dataTag r).1 (st.tags.drop st.first ++ [(st.head, r.readingBuffer)])) : Stepped r st (parse r) := by
  have hdrop : (st.tags ++ [(st.head, r.readingBuffer)]).drop st.first = st.tags.drop st.first ++ [(st.head, r.readingBuffer)] :=
    List.drop_append_of_le_length hf
  refine stepped_body [] hs hr (by rw [hc, read_flvTagbody hr]; rfl) ?_ ?_ ?_ fun hp' hfr => ?_
  · show st.first ≤ (st.tags ++ [(st.head, r.readingBuffer)]).length
    rw [List.length_append]
    omega
  · show Buffers _ ((st.tags ++ [(st.head, r.readingBuffer)]).drop st.first)
    rw [hdrop]
    exact hbuf
  · show Holds ((st.tags ++ [(st.head, r.readingBuffer)]).drop st.first) _
    rw [hdrop, hpc, hp, List.append_assoc]
    exact hh.concat (t := (st.head, r.readingBuffer)) hst
  · rw [hc]
    refine ⟨rfl, ?_⟩
    show Fresh hp' ((st.tags ++ [(st.head, r.readingBuffer)]).take st.first)
    rw [List.take_append_of_le_length hf]
    exact hfr

/-- A cut at a key frame: the header piece is brought up to the data piece posted. -/
theorem stepped_keyFrame {p : Piece} {h : Buffer} (hs : r.stat = .needFlvData) (hr : r.readingStat = .flvTagbody)
    (hf : st.first ≤ st.tags.length) (hb : Buffers r (st.tags.drop st.first)) (hp : r.piece = p ++ [h])
    (hh : Holds (st.tags.drop st.first) p) (hst : Restamped st.head h) (hcut : dataTag r = cutAtKeyFrame r)
    (hno : ∀ k : Codec, k.isHeader (st.head, r.readingBuffer) = false) : Stepped r st (parse r) := by
  have hd₁ : (dataTag r).1.piece = [h] := by
    rw [hcut]
    show r.piece.getLast?.toList = [h]
    rw [hp, List.getLast?_concat]
    rfl
  have hd₂ : (dataTag r).2 = .asyncWritePiece p 0 r.flvTagTimestamp :: updateHeaders r := by
    rw [hcut]
    show Call.asyncWritePiece r.piece.dropLast 0 r.flvTagTimestamp :: updateHeaders r = _
    rw [hp, List.dropLast_concat]
  have hpieces : pieces (dataTag r).2 = [p] := by
    rw [hd₂]
    show p :: pieces (updateHeaders r) = [p]
    rw [pieces_updateHeaders r]
  have hlen : st.first + p.length / 2 = st.tags.length := by
    rw [hh.length, List.length_drop]
    omega
  have htake : (st.tags ++ [(st.head, r.readingBuffer)]).take st.first = st.tags.take st.first :=
    List.take_append_of_le_length hf
  have hposted : ((st.tags ++ [(st.head, r.readingBuffer)]).drop st.first).take (p.length / 2) = st.tags.drop st.first := by
    rw [List.drop_append_of_le_length hf, List.take_append_of_le_length (by rw [hh.length]),
      List.take_of_length_le (by rw [hh.length])]
  have hpost : (st.read r.readingBuffer r.readingStat).post (pieces (dataTag r).2) =
      (⟨st.tags ++ [(st.head, r.readingBuffer)], st.head, st.tags.length⟩, [⟨st.tags.take st.first, st.tags.drop st.first⟩]) := by
    rw [read_flvTagbody hr, hpieces]
    simp only [Stream.post, hlen, htake, hposted]
  refine stepped_body _ hs hr hpost (by simp) (fun k => ?_) ?_ fun hp' hfr => ?_
  · have hn : buffered (dataTag r).1 k = none := by
      rw [hcut]
      cases k <;> rfl
    rw [hn]
    show none = (newest k ((st.tags ++ [(st.head, r.readingBuffer)]).drop st.tags.length)).map zeroTs
    rw [List.drop_left', newest_singleton, hno k]
    · rfl
    · rfl
  · show Holds ((st.tags ++ [(st.head, r.readingBuffer)]).drop st.tags.length) _
    rw [List.drop_left' rfl, hd₁]
    exact Holds.nil.concat (t := (st.head, r.readingBuffer)) hst
  · rw [hd₂]
    refine ⟨_, _, rfl, hfr, hh, ?_⟩
    rw [← List.append_nil ((updateHeaders r).map (msgOf false))]
    refine served_updates hfr hb fun hp₂ h₂ => ⟨rfl, ?_⟩
    show Fresh hp₂ ((st.tags ++ [(st.head, r.readingBuffer)]).take st.tags.length)
    rw [List.take_left' rfl, ← List.take_append_drop st.first st.tags]
    exact h₂

/-- The body of a tag of the data phase. -/
theorem stepped_dataBody {p : Piece} {h : Buffer} (hs : r.stat = .needFlvData) (hr : r.readingStat = .flvTagbody)
    (hf : st.first ≤ st.tags.length) (hb : Buffers r (st.tags.drop st.first)) (hty : r.curFlvTagType = tagType st.head)
    (hp : r.piece = p ++ [h]) (hh : Holds (st.tags.drop st.first) p) (hst : Restamped st.head h) : Stepped r st (parse r) := by
  have hheads : ∀ k : Codec, k.isHeader (st.head, r.readingBuffer) = k.heads r.curFlvTagType r.readingBuffer := fun k => by
    rw [hty]; rfl
  rcases dataTag_headers r with ⟨k, hk, hc, hpc, hbk, hbk'⟩ | ⟨hno, hcut | ⟨hc, hpc, hbk⟩⟩
  · -- a sequence header
    apply stepped_joined hs hr hf hp hh hst hc hpc
    intro k'
    rw [newest_append, newest_singleton, hheads]
    by_cases e : k' = k
    · subst e
      rw [hbk, bufferedTag, hp, List.getLast?_concat, hk]
      show some (setTagTs h 0, r.readingBuffer) = some (setTagTs st.head 0, r.readingBuffer)
      rw [hst.setTagTs_eq]
    · have hk' : k'.heads r.curFlvTagType r.readingBuffer = false := by
        rw [Bool.eq_false_iff]
        intro h'
        rw [← hheads] at h' hk
        exact e (Codec.type_inj ((Codec.type_of_isHeader h').symm.trans (Codec.type_of_isHeader hk)))
      rw [hbk' k' e, hk']
      exact hb k'
  · exact stepped_keyFrame hs hr hf hb hp hh hst hcut fun k => (hheads k).trans (hno k)
  · -- any other tag
    apply stepped_joined hs hr hf hp hh hst hc hpc
    intro k
    rw [newest_append, newest_singleton, hheads, hno k, hbk k]
    exact hb k

theorem Phase.step (h : Phase r st) (hc : clean r = true) (hres : (parse r).resume = true) : Stepped r st (parse r) := by
  cases h with
  | fileheader hs hr hp ht => exact stepped_fileheader hs hr hp ht hc hres
  | headerHead hs hr hb hp => exact stepped_headerHead hs hr hb hp
  | headerBody hs hr hb hty hp hh hst ho => exact stepped_headerBody hs hr hb hty hp hh hst ho hc
  | dataHead hs hr hf hb hp => exact stepped_dataHead hs hr hf hb hp hc hres
  | dataBody hs hr hf hb hty hp hh hst => exact stepped_dataBody hs hr hf hb hty hp hh hst

end

end XH.Proof.Cutter
