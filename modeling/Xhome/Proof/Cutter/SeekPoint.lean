import Xhome.Proof.Cutter.PlainCuts

/-!
# The seek point of a piece

`seek_point_pos_` counts the bytes of a piece up to its first key frame. Every
further key frame takes the size of a tag header off it again, and a tag that
was moved in from the header phase is never counted (`Counter`). So the value
posted with a piece is its seek point exactly if neither of the two matters
(`seek_point_iff`).
-/

namespace XH.Proof.Cutter

open XH.Impl.Cutter

/-! ## Tags -/

/-- A video tag with frame type 1 that is no AVC sequence header. -/
def isKeyFrameTag (t : Buffer × Buffer) : Bool :=
  tagType t.1 == flvVideodata && !(isAvc t.2 && isSequenceHeader t.2) && isKeyFrame t.2

def tagBytes (t : Buffer × Buffer) : Nat := t.1.length + t.2.length

/-- The offset of the first key frame, or the size of all tags. -/
def seekPoint : List (Buffer × Buffer) → Nat
  | [] => 0
  | t :: ts => if isKeyFrameTag t then 0 else tagBytes t + seekPoint ts

/-- The number of key frames. -/
def keyFrameCount (ts : List (Buffer × Buffer)) : Nat := ts.countP (isKeyFrameTag ·)

/-- The tags of a piece that `seek_point_pos_` is counted over: not the one moved in. -/
def countedTags (moved : Bool) (ts : List (Buffer × Buffer)) : List (Buffer × Buffer) := if moved then ts.tail else ts

theorem seekPoint_concat (ts : List (Buffer × Buffer)) (t : Buffer × Buffer) : seekPoint (ts ++ [t]) =
    seekPoint ts + if keyFrameCount ts = 0 ∧ isKeyFrameTag t = false then tagBytes t else 0 := by
  induction ts with
  | nil =>
    cases h : isKeyFrameTag t with
    | true => simp [seekPoint, h]
    | false => simp [seekPoint, keyFrameCount, h]
  | cons u ts ih =>
    rw [List.cons_append, seekPoint, seekPoint, ih, keyFrameCount, keyFrameCount, List.countP_cons]
    cases hu : isKeyFrameTag u with
    | true => simp
    | false =>
      simp only [Bool.false_eq_true, if_false, Nat.add_zero]
      omega

theorem keyFrameCount_concat (ts : List (Buffer × Buffer)) (t : Buffer × Buffer) :
    keyFrameCount (ts ++ [t]) = keyFrameCount ts + if isKeyFrameTag t then 1 else 0 := by
  rw [keyFrameCount, keyFrameCount, List.countP_append, List.countP_singleton]

theorem countedTags_concat {moved : Bool} {ts : List (Buffer × Buffer)} (h : moved = true → ts ≠ []) (t : Buffer × Buffer) :
    countedTags moved (ts ++ [t]) = countedTags moved ts ++ [t] := by
  cases moved with
  | false => rfl
  | true =>
    obtain ⟨u, us, rfl⟩ := List.exists_cons_of_ne_nil (h rfl)
    rfl

/-! ## The counter -/

/-- `got_seek_point_` and `seek_point_pos_` behind the tags `ts` and, while no key frame
has been seen, `extra` bytes more. -/
structure Counter (ts : List (Buffer × Buffer)) (extra : Nat) (got : Bool) (pos : Nat) : Prop where
  lt : pos < 2 ^ 32
  found : got = decide (0 < keyFrameCount ts)
  value : (pos + flvTagheaderTSize * (keyFrameCount ts - 1)) % 2 ^ 32 = (seekPoint ts + if got then 0 else extra) % 2 ^ 32

section
variable {ts : List (Buffer × Buffer)} {t : Buffer × Buffer} {got : Bool} {pos : Nat}

theorem Counter.nil : Counter [] 0 false 0 := ⟨by decide, rfl, rfl⟩

/-- The header of a tag is counted before the first key frame. -/
theorem Counter.head (h : Counter ts 0 got pos) :
    Counter ts flvTagheaderTSize got (if got then pos else u32 (pos + flvTagheaderTSize)) := by
  obtain ⟨hlt, hgot, hpos⟩ := h
  cases got with
  | true => exact ⟨hlt, hgot, hpos⟩
  | false =>
    have hk : keyFrameCount ts = 0 := by simpa using hgot.symm
    refine ⟨Nat.mod_lt _ (by decide), hgot, ?_⟩
    simp only [hk, Bool.false_eq_true, if_false, flvTagheaderTSize, u32] at hpos ⊢
    omega

/-- The body of a tag that is no key frame. -/
theorem Counter.other (h : Counter ts flvTagheaderTSize got pos) (hl : t.1.length = flvTagheaderTSize)
    (hk : isKeyFrameTag t = false) : Counter (ts ++ [t]) 0 got (if got then pos else u32 (pos + t.2.length)) := by
  obtain ⟨hlt, hgot, hpos⟩ := h
  have hc : keyFrameCount (ts ++ [t]) = keyFrameCount ts := by simp [keyFrameCount_concat, hk]
  cases got with
  | true =>
    have hn : keyFrameCount ts ≠ 0 := by
      have : 0 < keyFrameCount ts := by simpa using hgot.symm
      omega
    have hs : seekPoint (ts ++ [t]) = seekPoint ts := by rw [seekPoint_concat, if_neg fun e => hn e.1, Nat.add_zero]
    refine ⟨hlt, by rw [hc]; exact hgot, ?_⟩
    rw [hc, hs]
    exact hpos
  | false =>
    have hz : keyFrameCount ts = 0 := by simpa using hgot.symm
    have hs : seekPoint (ts ++ [t]) = seekPoint ts + (flvTagheaderTSize + t.2.length) := by
      rw [seekPoint_concat, if_pos ⟨hz, hk⟩, tagBytes, hl]
    refine ⟨Nat.mod_lt _ (by decide), by rw [hc]; exact hgot, ?_⟩
    rw [hc, hs]
    simp only [hz, Bool.false_eq_true, if_false, flvTagheaderTSize, u32] at hpos ⊢
    omega

/-- The body of a key frame takes its header off the counter, the first or not. -/
theorem Counter.keyFrame (h : Counter ts flvTagheaderTSize got pos) (hk : isKeyFrameTag t = true) :
    Counter (ts ++ [t]) 0 true (sub32 pos flvTagheaderTSize) := by
  obtain ⟨hlt, hgot, hpos⟩ := h
  have hc : keyFrameCount (ts ++ [t]) = keyFrameCount ts + 1 := by simp [keyFrameCount_concat, hk]
  have hs : seekPoint (ts ++ [t]) = seekPoint ts := by simp [seekPoint_concat, hk]
  refine ⟨Nat.mod_lt _ (by decide), by rw [hc]; simp, ?_⟩
  rw [hc, hs]
  cases got with
  | true =>
    have hn : 0 < keyFrameCount ts := by simpa using hgot.symm
    simp only [if_true, flvTagheaderTSize, sub32] at hpos ⊢
    omega
  | false =>
    have hz : keyFrameCount ts = 0 := by simpa using hgot.symm
    simp only [hz, Bool.false_eq_true, if_false, if_true, flvTagheaderTSize, sub32] at hpos ⊢
    omega

end

/-! ## The value posted -/

/-- The tags of a piece for which the counter gives the seek point; `moved` says that
the first one was moved in from the header phase. -/
def Countable (moved : Bool) (ts : List (Buffer × Buffer)) : Prop :=
  seekPoint ts < 2 ^ 32 ∧
    match moved, ts with
    | true, t :: rest =>
      if isKeyFrameTag t then seekPoint rest % 2 ^ 32 = flvTagheaderTSize * (keyFrameCount rest - 1) % 2 ^ 32
      else 2 ^ 32 ∣ tagBytes t + flvTagheaderTSize * (keyFrameCount rest - 1)
    | _, ts => 2 ^ 32 ∣ keyFrameCount ts - 1

theorem Counter.eq_seekPoint_iff {moved : Bool} {ts : List (Buffer × Buffer)} {got : Bool} {pos : Nat}
    (h : Counter (countedTags moved ts) 0 got pos) (hm : moved = true → ts ≠ []) :
    pos = seekPoint ts ↔ Countable moved ts := by
  obtain ⟨hlt, -, hpos⟩ := h
  have hpos : (pos + flvTagheaderTSize * (keyFrameCount (countedTags moved ts) - 1)) % 2 ^ 32 =
      seekPoint (countedTags moved ts) % 2 ^ 32 := by
    rw [hpos]
    split <;> rfl
  cases moved with
  | false =>
    simp only [countedTags, Bool.false_eq_true, if_false] at hpos
    have hdvd : 2 ^ 32 ∣ keyFrameCount ts - 1 ↔ 2 ^ 32 ∣ flvTagheaderTSize * (keyFrameCount ts - 1) :=
      ⟨fun h => Dvd.dvd.mul_left h _, fun h => Nat.Coprime.dvd_of_dvd_mul_left (by decide) h⟩
    simp only [Countable, hdvd, Nat.dvd_iff_mod_eq_zero]
    generalize flvTagheaderTSize * (keyFrameCount ts - 1) = n at hpos
    omega
  | true =>
    obtain ⟨t, rest, rfl⟩ := List.exists_cons_of_ne_nil (hm rfl)
    simp only [countedTags, if_true, List.tail_cons] at hpos
    simp only [Countable, seekPoint, Nat.dvd_iff_mod_eq_zero]
    generalize flvTagheaderTSize * (keyFrameCount rest - 1) = n at hpos
    split
    · omega
    · omega

/-! ## The notes -/

/-- A data piece posted while `cut_with_kf_` was false; `moved` says that its first tag
is the one that ended the header phase. -/
structure PlainPost where
  piece : Piece
  seekPointPos : Nat
  moved : Bool

/-- The pieces posted on a connection, and whether the piece at hand begins with the tag
that ended the header phase. -/
structure SeekNote where
  posted : List PlainPost
  moved : Bool

def plainPosts (moved : Bool) (calls : List Call) : List PlainPost :=
  calls.filterMap fun
    | .asyncWritePiece p seekPointPos _ => some ⟨p, seekPointPos, moved⟩
    | _ => none

def seekings : Notes SeekNote where
  connected g := g
  parsed g r := match r.stat with
    | .needHead => ⟨[], r.isHeaderOver⟩
    | .needFlvData =>
      ⟨g.posted ++ if r.cutWithKf then [] else plainPosts g.moved (parse r).calls,
        g.moved && (pieces (parse r).calls).isEmpty⟩

/-- The fields that `READING_HEAD` resets and a plain cut uses. -/
def seekOf (r : Reader) : Int × Bool × Nat := (r.shouldCutCount, r.gotSeekPoint, r.seekPointPos)

/-- The value of a posted piece is what has been counted over its tags. -/
def PostedRight (e : PlainPost) : Prop :=
  ∃ ts, e.piece = pairs ts ∧ (e.moved = true → ts ≠ []) ∧ ∃ got, Counter (countedTags e.moved ts) 0 got e.seekPointPos

/-- The piece at hand, between its tags or inside the last one. -/
structure Seeking (r : Reader) (moved : Bool) : Prop where
  parsing : r.readingStat ≠ .head
  count : r.shouldCutCount = 0
  between : r.readingStat = .flvTaghead → ∃ ts, r.piece = pairs ts ∧ (moved = true → ts ≠ []) ∧
    Counter (countedTags moved ts) 0 r.gotSeekPoint r.seekPointPos
  within : r.readingStat = .flvTagbody → ∃ ts head, r.piece = pairs ts ++ [head] ∧ (moved = true → ts ≠ []) ∧
    (head.length = flvTagheaderTSize ∧ r.curFlvTagType = tagType head) ∧
    Counter (countedTags moved ts) flvTagheaderTSize r.gotSeekPoint r.seekPointPos

structure Seeks (r : Reader) (g : SeekNote) : Prop where
  keyFrames : r.cutWithKf = true → r.needCutWithKf = true
  header : r.stat = .needHead → r.readingStat ≠ .head → seekOf r = (0, false, 0)
  waiting : r.stat = .needHead → r.readingStat = .flvTagbody → r.piece ≠ []
  data : r.stat = .needFlvData → r.cutWithKf = false → Seeking r g.moved
  posted : ∀ e ∈ g.posted, PostedRight e

section
variable {r : Reader} {g : SeekNote}

theorem pairs_concat (ts : List (Buffer × Buffer)) (t : Buffer × Buffer) : pairs (ts ++ [t]) = pairs ts ++ [t.1, t.2] :=
  List.flatMap_append

/-- A sequence of tags with more behind it is still not empty. -/
theorem concat_ne_nil (ts : List (Buffer × Buffer)) (t : Buffer × Buffer) : ts ++ [t] ≠ [] :=
  List.append_ne_nil_of_right_ne_nil ts (List.cons_ne_nil t [])

theorem seekings_data (hs : r.stat = .needFlvData) : seekings.parsed g r =
    ⟨g.posted ++ if r.cutWithKf then [] else plainPosts g.moved (parse r).calls, g.moved && (pieces (parse r).calls).isEmpty⟩ := by
  simp only [seekings, hs]

theorem seekings_header (hs : r.stat = .needHead) : seekings.parsed g r = ⟨[], r.isHeaderOver⟩ := by
  simp only [seekings, hs]

/-! ## A step of the parser -/

theorem headerOver_seek (r : Reader) (ts : Nat) : seekOf (headerOver r ts) = seekOf r := by
  unfold headerOver firstDataTag
  dsimp only
  split_ifs <;> rfl

theorem headTag_seek (r : Reader) : seekOf (headTag r).1 = seekOf r := by
  unfold headTag
  split_ifs <;> rfl

theorem placeTag_seek (r : Reader) : seekOf (placeTag r) = seekOf r := by
  have hb : ∀ ts, seekOf (beginData (typeTag r) ts) = seekOf r := fun ts => by
    unfold beginData
    split_ifs <;> rfl
  have hs : ∀ (q : Reader) ts, seekOf (stampTag q ts) = seekOf q := fun q ts => by
    unfold stampTag
    dsimp only
    split_ifs <;> rfl
  exact (hs (beginData (typeTag r) (getTagTs r.readingBuffer)) _).trans (hb _)

theorem headTag_keyFrames (r : Reader) (h : (headTag r).1.cutWithKf = true) : r.cutWithKf = true := by
  unfold headTag at h
  split_ifs at h <;> exact h

/-- The header phase leaves the counter at 0. -/
theorem parse_needHead_seek (hs : r.stat = .needHead) (h : r.readingStat ≠ .head → seekOf r = (0, false, 0)) :
    (parse r).reader.readingStat = .head ∨ seekOf (parse r).reader = (0, false, 0) := by
  cases hr : r.readingStat with
  | head =>
    have e : parse r = needHeadHead r := by simp only [parse, hs, hr]
    rw [e, needHeadHead]
    split
    · exact .inr rfl
    · exact .inl hr
  | flvTaghead =>
    have e : parse r = needHeadTaghead r := by simp only [parse, hs, hr]
    have h₀ := h (by rw [hr]; decide)
    rw [e, needHeadTaghead]
    split
    · exact .inr ((headerOver_seek (beginTag r _) _).trans h₀)
    · exact .inr h₀
  | flvTagbody =>
    have e : parse r = needHeadTagbody r := by simp only [parse, hs, hr]
    have h₀ := h (by rw [hr]; decide)
    rw [e, needHeadTagbody]
    split
    · exact .inr h₀
    · dsimp only
      split
      · exact .inr ((headTag_seek r).trans h₀)
      · exact .inr ((headTag_seek r).trans h₀)

/-- A tag header of the data phase: it is counted and appended, behind a cut or not, or the
reader restarts. -/
theorem parse_taghead (hs : r.stat = .needFlvData) (hr : r.readingStat = .flvTaghead) :
    ∃ s, Stamps (typeTag r) s ∧ seekOf s = seekOf r ∧
      (parse r = ⟨appendTagHead s, [], true⟩ ∨ parse r = ⟨appendTagHead (advanceSlot s).1, (advanceSlot s).2, true⟩ ∨
        parse r = restart (bigGap s)) := by
  have hp : parse r = flvDataTaghead r := by simp only [parse, hs, hr]
  by_cases hm : IsMedia r.readingBuffer
  · refine ⟨placeTag r, .placeTag r, placeTag_seek r, ?_⟩
    rw [hp]
    exact flvDataTaghead_media hm
  · exact ⟨typeTag r, .refl _, rfl, .inl (parse_otherHead hs hr hm)⟩

/-- A key frame is found by its body. -/
theorem dataTag_seek (hk : r.cutWithKf = false) {head : Buffer} (ht : r.curFlvTagType = tagType head) :
    seekOf (dataTag r).1 = if isKeyFrameTag (head, r.readingBuffer) then
      (r.shouldCutCount, true, sub32 r.seekPointPos flvTagheaderTSize) else seekOf r := by
  unfold dataTag
  rw [ht]
  by_cases ha : tagType head = flvAudiodata
  · have hn : isKeyFrameTag (head, r.readingBuffer) = false := by
      simp [isKeyFrameTag, ha, flvAudiodata, flvVideodata]
    rw [if_pos ha, hn]
    split <;> rfl
  · rw [if_neg ha]
    by_cases hv : tagType head = flvVideodata
    · rw [if_pos hv]
      by_cases hseq : isAvc r.readingBuffer = true ∧ isSequenceHeader r.readingBuffer = true
      · have hn : isKeyFrameTag (head, r.readingBuffer) = false := by simp [isKeyFrameTag, hseq.1, hseq.2]
        rw [if_pos hseq, hn]
        rfl
      · rw [if_neg hseq, keyFrame, hk]
        have he : isKeyFrameTag (head, r.readingBuffer) = isKeyFrame r.readingBuffer := by
          have hb : (isAvc r.readingBuffer && isSequenceHeader r.readingBuffer) = false := by
            rw [Bool.eq_false_iff]
            exact fun e => hseq ((Bool.and_eq_true _ _).mp e)
          simp [isKeyFrameTag, hv, hb]
        rw [he]
        split <;> rfl
    · have hn : isKeyFrameTag (head, r.readingBuffer) = false := by simp [isKeyFrameTag, hv]
      rw [if_neg hv, hn]
      rfl

/-- In the data phase `cut_with_kf_` stays or is set from `need_cut_with_kf_`. -/
theorem parse_data_cutWithKf (hs : r.stat = .needFlvData) :
    (parse r).reader.cutWithKf = r.cutWithKf ∨ (parse r).reader.cutWithKf = r.needCutWithKf := by
  cases hr : r.readingStat with
  | head =>
    have e : parse r = ⟨r, [], true⟩ := by simp only [parse, hs, hr]
    rw [e]
    exact .inl rfl
  | flvTaghead =>
    obtain ⟨u, hst, -, e | e | e⟩ := parse_taghead hs hr
    · rw [e]
      exact .inl hst.cutWithKf
    · have ha : (advanceSlot u).1.cutWithKf = u.cutWithKf := by
        unfold advanceSlot
        split <;> rfl
      rw [e]
      exact .inl (ha.trans hst.cutWithKf)
    · rw [e]
      exact .inl hst.cutWithKf
  | flvTagbody =>
    have e : parse r = flvDataTagbody r := by simp only [parse, hs, hr]
    have hi : (insertEmptyPieces (dataTag r).1).1.cutWithKf = (dataTag r).1.cutWithKf := by
      unfold insertEmptyPieces
      split <;> rfl
    have hd : (dataTag r).1.cutWithKf = r.cutWithKf ∨ (dataTag r).1.cutWithKf = r.needCutWithKf := by
      unfold dataTag keyFrame cutAtKeyFrame
      split_ifs <;> first | exact .inl rfl | exact .inr rfl
    rw [e]
    exact hd.imp hi.trans hi.trans

theorem parse_header_cutWithKf (hs : r.stat = .needHead) (hk : (parse r).reader.cutWithKf = true) :
    r.cutWithKf = true ∨ r.needCutWithKf = true := by
  cases hr : r.readingStat with
  | head =>
    have e : parse r = needHeadHead r := by simp only [parse, hs, hr]
    rw [e, needHeadHead] at hk
    split at hk
    · exact .inr hk
    · exact .inl hk
  | flvTaghead =>
    have e : parse r = needHeadTaghead r := by simp only [parse, hs, hr]
    obtain ⟨u, hu, hst, -⟩ := needHeadTaghead_cases r
    rw [e, hu] at hk
    exact .inl (hst.cutWithKf.symm.trans hk)
  | flvTagbody =>
    have e : parse r = needHeadTagbody r := by simp only [parse, hs, hr]
    rw [e, needHeadTagbody] at hk
    split at hk
    · have hk : (if r.gotVideoHead then r.cutWithKf else false) = true := hk
      split at hk
      · exact .inl hk
      · cases hk
    · dsimp only at hk
      split at hk
      · exact .inl (headTag_keyFrames r hk)
      · exact .inl (headTag_keyFrames r hk)

theorem parse_keyFrames (h : r.cutWithKf = true → r.needCutWithKf = true) (hk : (parse r).reader.cutWithKf = true) :
    (parse r).reader.needCutWithKf = true := by
  have hc : (parse r).reader.needCutWithKf = r.needCutWithKf := congrArg (·.2.1) (parse_config r)
  rw [hc]
  cases hs : r.stat with
  | needHead => exact (parse_header_cutWithKf hs hk).elim h id
  | needFlvData =>
    rcases parse_data_cutWithKf hs with e | e
    · exact h (e.symm.trans hk)
    · exact e.symm.trans hk

/-! ## The data phase -/

theorem mem_plainPosts_nil {moved : Bool} {e : PlainPost} : e ∉ plainPosts moved [] := List.not_mem_nil

theorem Seeking.taghead (h : Seeking r g.moved) (hs : r.stat = .needFlvData) (hr : r.readingStat = .flvTaghead)
    (hsz : r.readingBuffer.length = flvTagheaderTSize) (hk : r.cutWithKf = false) :
    Seeking (parse r).reader (seekings.parsed g r).moved ∧
      ∀ e ∈ (seekings.parsed g r).posted, e ∈ g.posted ∨ PostedRight e := by
  obtain ⟨ts, hp, hm, hcount⟩ := h.between hr
  obtain ⟨s, hst, hsk, hcases⟩ := parse_taghead hs hr
  have hgot : s.gotSeekPoint = r.gotSeekPoint := congrArg (·.2.1) hsk
  have hpos : s.seekPointPos = r.seekPointPos := congrArg (·.2.2) hsk
  have hcut : s.shouldCutCount = 0 := (congrArg (·.1) hsk).trans h.count
  have hpiece : s.piece = pairs ts := hst.piece.trans hp
  have hlen : s.readingBuffer.length = flvTagheaderTSize := by
    rcases hst.readingBuffer with e | ⟨t, e⟩
    · rw [e]; exact hsz
    · rw [e, length_setTagTs]; exact hsz
  have htype : s.curFlvTagType = tagType s.readingBuffer := by
    rw [hst.curFlvTagType]
    rcases hst.readingBuffer with e | ⟨t, e⟩
    · rw [e]; rfl
    · rw [e, tagType_setTagTs]; rfl
  rw [seekings_data hs, hk]
  rcases hcases with e | e | e
  · rw [e]
    refine ⟨⟨(fun e => by cases e), hcut, (fun e => by cases e), fun _ => ⟨ts, s.readingBuffer, ?_, ?_, ⟨hlen, htype⟩, ?_⟩⟩, ?_⟩
    · show s.piece ++ [s.readingBuffer] = _
      rw [hpiece]
    · exact fun e => hm ((Bool.and_eq_true _ _).mp e).1
    · have hc := hcount.head
      rw [← hgot, ← hpos, ← hlen] at hc
      show Counter (countedTags (g.moved && true) ts) _ s.gotSeekPoint
        (if s.gotSeekPoint = true then s.seekPointPos else u32 (s.seekPointPos + s.readingBuffer.length))
      rw [Bool.and_true, ← hlen]
      exact hc
    · intro e he
      refine .inl ((List.mem_append.mp he).resolve_right mem_plainPosts_nil)
  · -- the piece at hand is posted, and the tag begins the next one
    have hadv : advanceSlot s = ({ s with piece := [], curPieceTs := s.curFlvTagTs, gotSeekPoint := false, seekPointPos := 0 },
        [.asyncWritePiece s.piece s.seekPointPos s.flvTagTimestamp]) :=
      if_neg (by rw [hst.cutWithKf.trans (show (typeTag r).cutWithKf = false from hk)]; decide)
    rw [e, hadv]
    refine ⟨⟨(fun e => by cases e), hcut, (fun e => by cases e), fun _ =>
      ⟨[], s.readingBuffer, rfl, ?_, ⟨hlen, htype⟩, ?_⟩⟩, ?_⟩
    · intro e
      cases ((Bool.and_eq_true _ _).mp e).2
    · have hc := Counter.nil.head
      show Counter (countedTags (g.moved && false) []) _ false (u32 (0 + s.readingBuffer.length))
      rw [Bool.and_false, hlen]
      exact hc
    · intro e he
      rcases List.mem_append.mp he with he | he
      · exact .inl he
      · have he : e = ⟨s.piece, s.seekPointPos, g.moved⟩ := List.mem_singleton.mp he
        refine .inr ⟨ts, by rw [he]; exact hpiece, by rw [he]; exact hm, r.gotSeekPoint, ?_⟩
        rw [he]
        show Counter (countedTags g.moved ts) 0 r.gotSeekPoint s.seekPointPos
        rw [hpos]
        exact hcount
  · rw [e]
    refine ⟨⟨?_, hcut, fun _ => ⟨ts, hpiece, ?_, ?_⟩, ?_⟩, ?_⟩
    · show s.readingStat ≠ .head
      rw [hst.readingStat]
      exact h.parsing
    · exact fun e => hm ((Bool.and_eq_true _ _).mp e).1
    · show Counter (countedTags (g.moved && true) ts) 0 s.gotSeekPoint s.seekPointPos
      rw [Bool.and_true, hgot, hpos]
      exact hcount
    · intro e
      cases (hst.readingStat.trans hr).symm.trans e
    · exact fun e he => .inl ((List.mem_append.mp he).resolve_right List.not_mem_nil)

theorem Seeking.tagbody (h : Seeking r g.moved) (hs : r.stat = .needFlvData) (hr : r.readingStat = .flvTagbody)
    (hk : r.cutWithKf = false) :
    Seeking (parse r).reader (seekings.parsed g r).moved ∧ (seekings.parsed g r).posted = g.posted := by
  obtain ⟨ts, head, hp, hm, ⟨hlen, htype⟩, hcount⟩ := h.within hr
  obtain ⟨h₁, h₂, h₃, -⟩ := dataTag_plain hk
  have hi : insertEmptyPieces (dataTag r).1 = ((dataTag r).1, []) := by
    unfold insertEmptyPieces
    rw [if_neg]
    rw [h₃, h.count]
    decide
  have hout : parse r = ⟨appendTagBody (countSeek (dataTag r).1), [], true⟩ := by
    have e : parse r = flvDataTagbody r := by simp only [parse, hs, hr]
    rw [e, flvDataTagbody, hi, h₁]
    rfl
  have hbuf : (dataTag r).1.readingBuffer = r.readingBuffer := by
    unfold dataTag keyFrame cutAtKeyFrame
    split_ifs <;> rfl
  have hseek := dataTag_seek hk htype
  have hgot : (dataTag r).1.gotSeekPoint = if isKeyFrameTag (head, r.readingBuffer) then true else r.gotSeekPoint := by
    have := congrArg (·.2.1) hseek
    rw [apply_ite (fun x : Int × Bool × Nat => x.2.1)] at this
    exact this
  have hpos : (dataTag r).1.seekPointPos = if isKeyFrameTag (head, r.readingBuffer) then
      sub32 r.seekPointPos flvTagheaderTSize else r.seekPointPos := by
    have := congrArg (·.2.2) hseek
    rw [apply_ite (fun x : Int × Bool × Nat => x.2.2)] at this
    exact this
  rw [seekings_data hs, hk, hout]
  refine ⟨⟨(fun e => by cases e), h₃.trans h.count, fun _ => ⟨ts ++ [(head, r.readingBuffer)], ?_, ?_, ?_⟩,
    fun e => by cases e⟩, List.append_nil _⟩
  · show (dataTag r).1.piece ++ [(dataTag r).1.readingBuffer] = _
    rw [h₂, hp, hbuf, pairs_concat]
    simp
  · exact fun _ => concat_ne_nil ts _
  · show Counter (countedTags (g.moved && true) (ts ++ [(head, r.readingBuffer)])) 0 (dataTag r).1.gotSeekPoint
      (if (dataTag r).1.gotSeekPoint = true then (dataTag r).1.seekPointPos
        else u32 ((dataTag r).1.seekPointPos + (dataTag r).1.readingBuffer.length))
    rw [Bool.and_true, countedTags_concat hm, hgot, hpos, hbuf]
    cases hkey : isKeyFrameTag (head, r.readingBuffer) with
    | true =>
      simp only [if_true]
      exact hcount.keyFrame hkey
    | false =>
      simp only [Bool.false_eq_true, if_false]
      exact hcount.other hlen hkey

/-! ## The header phase -/

/-- The tag whose header has just been appended waits for its body. -/
theorem parse_needHead_waiting (hs : r.stat = .needHead) (h : (parse r).reader.readingStat = .flvTagbody) :
    (parse r).reader.piece ≠ [] := by
  cases hr : r.readingStat with
  | head =>
    have e : parse r = needHeadHead r := by simp only [parse, hs, hr]
    rw [e, needHeadHead] at h
    split at h
    · cases h
    · cases hr.symm.trans h
  | flvTaghead =>
    have e : parse r = needHeadTaghead r := by simp only [parse, hs, hr]
    obtain ⟨u, hu, -⟩ := needHeadTaghead_cases r
    rw [e, hu]
    exact List.append_ne_nil_of_right_ne_nil u.piece (List.cons_ne_nil u.readingBuffer [])
  | flvTagbody =>
    have e : parse r = needHeadTagbody r := by simp only [parse, hs, hr]
    rw [e, needHeadTagbody] at h
    split at h
    · cases h
    · dsimp only at h
      split at h
      · cases h
      · cases h

/-- The piece at hand when the data phase begins: empty, or the tag that ended the header
phase. -/
theorem parse_leaves_piece (hs : r.stat = .needHead) (hw : r.readingStat = .flvTagbody → r.piece ≠ [])
    (hs' : (parse r).reader.stat = .needFlvData) :
    ∃ ts, (parse r).reader.piece = pairs ts ∧ (r.isHeaderOver = true → ∃ t, ts = [t]) ∧ (r.isHeaderOver = false → ts = []) := by
  cases hr : r.readingStat with
  | head =>
    have e : parse r = needHeadHead r := by simp only [parse, hs, hr]
    rw [e, needHeadHead] at hs'
    split at hs'
    · cases hs.symm.trans hs'
    · cases hs.symm.trans hs'
  | flvTaghead =>
    have e : parse r = needHeadTaghead r := by simp only [parse, hs, hr]
    obtain ⟨u, hu, hst, -⟩ := needHeadTaghead_cases r
    rw [e, hu] at hs'
    cases (hst.stat.trans hs).symm.trans hs'
  | flvTagbody =>
    have e : parse r = needHeadTagbody r := by simp only [parse, hs, hr]
    rw [e, needHeadTagbody] at hs' ⊢
    by_cases hov : r.isHeaderOver = true
    · rw [if_pos hov]
      obtain ⟨b, hb⟩ := List.getLast?_isSome.mpr (hw hr) |> Option.isSome_iff_exists.mp
      refine ⟨[(b, r.readingBuffer)], ?_, fun _ => ⟨_, rfl⟩, fun e => by cases hov.symm.trans e⟩
      show r.piece.getLast?.toList ++ [r.readingBuffer] = _
      rw [hb]
      rfl
    · rw [if_neg hov] at hs' ⊢
      dsimp only at hs' ⊢
      split at hs'
      · rw [if_pos ‹_›]
        exact ⟨[], rfl, fun e => absurd e hov, fun _ => rfl⟩
      · cases ((headTag_frame r).1.trans hs).symm.trans hs'

/-! ## Runs -/

/-- A step of the parser, also one at which the reader restarts. -/
theorem Seeks.parse (h : Seeks r g) (hsz : Sized r) : Seeks (parse r).reader (seekings.parsed g r) := by
  have hk := parse_keyFrames h.keyFrames
  cases hs : r.stat with
  | needHead =>
    have hseek := parse_needHead_seek hs (h.header hs)
    rw [seekings_header hs]
    refine ⟨hk, fun _ hr => hseek.resolve_left hr, fun _ hr => parse_needHead_waiting hs hr, fun hs' hk' => ?_,
      fun e he => by cases he⟩
    have hr' := parse_leaves hs hs'
    have h₀ : seekOf (Impl.Cutter.parse r).reader = (0, false, 0) := hseek.resolve_left (by rw [hr']; decide)
    obtain ⟨ts, hp, hover, hnot⟩ := parse_leaves_piece hs (h.waiting hs) hs'
    have hgot : (Impl.Cutter.parse r).reader.gotSeekPoint = false := congrArg (·.2.1) h₀
    have hpos : (Impl.Cutter.parse r).reader.seekPointPos = 0 := congrArg (·.2.2) h₀
    have hnil : countedTags r.isHeaderOver ts = [] := by
      cases hov : r.isHeaderOver with
      | true =>
        obtain ⟨t, rfl⟩ := hover hov
        rfl
      | false => exact hnot hov
    refine ⟨by rw [hr']; decide, congrArg (·.1) h₀, fun _ => ⟨ts, hp, fun e => ?_, ?_⟩, fun e => by cases hr'.symm.trans e⟩
    · obtain ⟨t, rfl⟩ := hover e
      exact List.cons_ne_nil t []
    · rw [hnil, hgot, hpos]
      exact .nil
  | needFlvData =>
    have hst : (Impl.Cutter.parse r).reader.stat = .needFlvData := by
      rcases parse_needFlvData hs with ⟨-, -, e⟩ | ⟨-, -, e⟩
      · exact e
      · exact e
    have hend : (Impl.Cutter.parse r).reader.stat ≠ .needHead := fun e => by cases hst.symm.trans e
    cases hkf : r.cutWithKf with
    | true =>
      -- with key frames wanted `cut_with_kf_` stays true
      have hstay : (Impl.Cutter.parse r).reader.cutWithKf = true := by
        rcases parse_data_cutWithKf hs with e | e
        · exact e.trans hkf
        · exact e.trans (h.keyFrames hkf)
      refine ⟨hk, fun e => absurd e hend, fun e => absurd e hend, (fun _ e => by cases hstay.symm.trans e), fun e he => ?_⟩
      rw [seekings_data hs, hkf] at he
      exact h.posted e ((List.mem_append.mp he).resolve_right List.not_mem_nil)
    | false =>
      have hd := h.data hs hkf
      cases hr : r.readingStat with
      | head => exact absurd hr hd.parsing
      | flvTaghead =>
        obtain ⟨h₁, h₂⟩ := hd.taghead hs hr (hsz hr) hkf
        exact ⟨hk, fun e => absurd e hend, fun e => absurd e hend, fun _ _ => h₁,
          fun e he => (h₂ e he).elim (h.posted e) id⟩
      | flvTagbody =>
        obtain ⟨h₁, h₂⟩ := hd.tagbody hs hr hkf
        exact ⟨hk, fun e => absurd e hend, fun e => absurd e hend, fun _ _ => h₁, fun e he => h.posted e (h₂ ▸ he)⟩

/-- The lasting state of the reader has all that counts. -/
theorem seeks_core : Seeks (core r) g ↔ Seeks r g := by
  constructor
  · intro h
    exact ⟨h.keyFrames, h.header, h.waiting, fun hs hk =>
      have hd := h.data hs hk
      ⟨hd.parsing, hd.count, hd.between, hd.within⟩, h.posted⟩
  · intro h
    exact ⟨h.keyFrames, h.header, h.waiting, fun hs hk =>
      have hd := h.data hs hk
      ⟨hd.parsing, hd.count, hd.between, hd.within⟩, h.posted⟩

theorem seekings_keeps : seekings.Keeps (fun _ _ => True) Seeks Seeks where
  lasts _ _ h := h
  begin _ _ h := ⟨h.keyFrames, fun _ e => absurd rfl e, (fun _ e => by cases e), (fun e => by cases e), h.posted⟩
  connect _ _ h := h
  stops _ _ h hsz _ _ := seeks_core.mpr ((seeks_core.mp h).parse hsz)
  parse _ _ h hsz _ _ := seeks_core.mpr ((seeks_core.mp h).parse hsz)

end

/-- Every data piece posted while `cut_with_kf_` is false is a number of whole tags, and
its `seek_point_pos` is the offset of the first key frame in it, or its size, exactly if
the tags are countable. -/
theorem seek_point_iff (url : List Char) (kf modify : Bool) (scale mediaTs : Nat) {s : Noted SeekNote}
    (h : Reach seekings.step (fun _ _ => True) ⟨startReader url kf modify scale mediaTs, ⟨[], false⟩⟩ s) {e : PlainPost}
    (he : e ∈ s.note.posted) :
    ∃ ts, e.piece = pairs ts ∧ (e.seekPointPos = seekPoint ts ↔ Countable e.moved ts) := by
  have h₀ : Seeks (core (startReader url kf modify scale mediaTs)) ⟨[], false⟩ :=
    ⟨fun e => e, fun _ e => absurd rfl e, (fun _ e => by cases e), (fun e => by cases e), fun e he => by cases he⟩
  have hs := Notes.invariant seekings_keeps h₀ rfl (fun e => by cases e) (h.mono fun _ _ _ _ _ => trivial)
  obtain ⟨ts, hp, hm, got, hc⟩ := hs.posted e he
  exact ⟨ts, hp, hc.eq_seekPoint_iff hm⟩

/-- Both heads, a key frame behind an audio tag, and an audio tag in the next slot. -/
def oneKeyFrame : List Event :=
  connected ++ (requests [audio 1000, videoKey 1500, audio 1600, audio 2100]).map .data

theorem seek_point_iff_oneKeyFrame :
    ∃ s e ts, Reach seekings.step (fun _ _ => True) ⟨startReader ['u'] false false 1 0, ⟨[], false⟩⟩ s ∧
      s.note.posted.getLast? = some e ∧ e.piece.length = 6 ∧ e.seekPointPos = 17 ∧ e.piece = pairs ts ∧
      (17 = seekPoint ts ↔ Countable false ts) := by
  have h : (runEvents seekings.step ⟨startReader ['u'] false false 1 0, ⟨[], false⟩⟩ oneKeyFrame).map
      (fun s => s.note.posted.getLast?.map fun e => (e.piece.length, e.seekPointPos, e.moved)) =
        some (some (6, 17, false)) := by
    decide +kernel
  obtain ⟨s, hr, h⟩ := Option.map_eq_some_iff.mp h
  obtain ⟨e, he, h⟩ := Option.map_eq_some_iff.mp h
  simp only [Prod.mk.injEq] at h
  obtain ⟨ts, hp, hiff⟩ := seek_point_iff ['u'] false false 1 0 (.of_runIf hr) (List.mem_of_getLast? he)
  rw [h.2.1, h.2.2] at hiff
  exact ⟨s, e, ts, .of_runIf hr, he, h.1, h.2.1, hp, hiff⟩

/-- Two key frames in one slot, and an audio tag in the next one. -/
def twoKeyFrames : List Event :=
  connected ++ (requests [videoKey 1000, videoKey 1500, audio 2100]).map .data

/-- The piece begins with its first key frame; the value posted is -11. -/
theorem second_keyFrame_counted :
    ∃ s e, Reach seekings.step (fun _ _ => True) ⟨startReader ['u'] false false 1 0, ⟨[], false⟩⟩ s ∧
      e ∈ s.note.posted ∧ e.piece = pairs [((videoKey 1000).head, (videoKey 1000).body), ((videoKey 1500).head, (videoKey 1500).body)] ∧
      seekPoint [((videoKey 1000).head, (videoKey 1000).body), ((videoKey 1500).head, (videoKey 1500).body)] = 0 ∧
      e.seekPointPos = 2 ^ 32 - 11 := by
  have h : (runEvents seekings.step ⟨startReader ['u'] false false 1 0, ⟨[], false⟩⟩ twoKeyFrames).map
      (fun s => s.note.posted.getLast?.map fun e => (e.piece, e.seekPointPos)) =
        some (some (pairs [((videoKey 1000).head, (videoKey 1000).body), ((videoKey 1500).head, (videoKey 1500).body)],
          2 ^ 32 - 11)) := by
    decide +kernel
  obtain ⟨s, hr, h⟩ := Option.map_eq_some_iff.mp h
  obtain ⟨e, he, h⟩ := Option.map_eq_some_iff.mp h
  simp only [Prod.mk.injEq] at h
  exact ⟨s, e, .of_runIf hr, List.mem_of_getLast? he, h.1, by decide, h.2⟩

end XH.Proof.Cutter
