import Xhome.Impl.Cutter.System

/-!
# What a step of the parser can do

The helpers of `on_content` that assign timestamps change nothing but
timestamps, slots and the four timestamp bytes of the tag header being read
(`Stamps`). `parse_needHead` and `parse_needFlvData` then list the outcomes of
a step of the parser in each state, with the calls it makes.
-/

namespace XH.Proof.Cutter

open XH.Impl.Cutter

/-- The same bytes except for a timestamp. -/
def Restamped (b c : Buffer) : Prop := c = b ∨ ∃ ts, c = setTagTs b ts

theorem Restamped.refl (b : Buffer) : Restamped b b := .inl rfl

theorem Restamped.trans {b c d : Buffer} (h : Restamped b c) (h' : Restamped c d) : Restamped b d := by
  rcases h with rfl | ⟨ts, rfl⟩
  · exact h'
  · rcases h' with rfl | ⟨ts', rfl⟩
    · exact .inr ⟨ts, rfl⟩
    · exact .inr ⟨ts', setTagTs_setTagTs _ _ _⟩

theorem Restamped.ite (b : Buffer) (c : Bool) (ts : Nat) : Restamped b (if c then setTagTs b ts else b) := by
  cases c with
  | false => exact .refl b
  | true => exact .inr ⟨ts, rfl⟩

theorem Restamped.length {b c : Buffer} (h : Restamped b c) : c.length = b.length := by
  rcases h with rfl | ⟨ts, rfl⟩
  · rfl
  · exact length_setTagTs _ _

theorem Restamped.tagType {b c : Buffer} (h : Restamped b c) : tagType c = tagType b := by
  rcases h with rfl | ⟨ts, rfl⟩
  · rfl
  · exact tagType_setTagTs _ _

theorem Restamped.tagDatasize {b c : Buffer} (h : Restamped b c) : tagDatasize c = tagDatasize b := by
  rcases h with rfl | ⟨ts, rfl⟩
  · rfl
  · exact tagDatasize_setTagTs _ _

theorem Restamped.setTagTs_eq {b c : Buffer} (h : Restamped b c) (ts : Nat) : setTagTs c ts = setTagTs b ts := by
  rcases h with rfl | ⟨ts', rfl⟩
  · rfl
  · exact setTagTs_setTagTs _ _ _

/-- Only timestamps, slots and marks of the first data tag differ. -/
structure Stamps (r t : Reader) : Prop where
  op : t.op = r.op
  stat : t.stat = r.stat
  readingStat : t.readingStat = r.readingStat
  piece : t.piece = r.piece
  cutWithKf : t.cutWithKf = r.cutWithKf
  shouldCutCount : t.shouldCutCount = r.shouldCutCount
  aac : t.aacSequenceHeader = r.aacSequenceHeader
  avc : t.avcSequenceHeader = r.avcSequenceHeader
  isReaderReady : t.isReaderReady = r.isReaderReady
  gotAudioHead : t.gotAudioHead = r.gotAudioHead
  gotVideoHead : t.gotVideoHead = r.gotVideoHead
  curFlvTagType : t.curFlvTagType = r.curFlvTagType
  needCutWithKf : t.needCutWithKf = r.needCutWithKf
  readingBuffer : Restamped r.readingBuffer t.readingBuffer

namespace Stamps

theorem refl (r : Reader) : Stamps r r := ⟨rfl, rfl, rfl, rfl, rfl, rfl, rfl, rfl, rfl, rfl, rfl, rfl, rfl, .refl _⟩

theorem trans {r s t : Reader} (h : Stamps r s) (h' : Stamps s t) : Stamps r t :=
  ⟨h'.op.trans h.op, h'.stat.trans h.stat, h'.readingStat.trans h.readingStat, h'.piece.trans h.piece, h'.cutWithKf.trans h.cutWithKf,
    h'.shouldCutCount.trans h.shouldCutCount, h'.aac.trans h.aac, h'.avc.trans h.avc,
    h'.isReaderReady.trans h.isReaderReady, h'.gotAudioHead.trans h.gotAudioHead,
    h'.gotVideoHead.trans h.gotVideoHead, h'.curFlvTagType.trans h.curFlvTagType,
    h'.needCutWithKf.trans h.needCutWithKf, h.readingBuffer.trans h'.readingBuffer⟩

theorem setTs (r : Reader) (ts delta : Nat) : Stamps r (setTs r ts delta) :=
  ⟨rfl, rfl, rfl, rfl, rfl, rfl, rfl, rfl, rfl, rfl, rfl, rfl, rfl, .refl _⟩

theorem gotData (r : Reader) : Stamps r (gotData r) :=
  ⟨rfl, rfl, rfl, rfl, rfl, rfl, rfl, rfl, rfl, rfl, rfl, rfl, rfl, .refl _⟩

theorem assignTs (r : Reader) (ts delta : Nat) : Stamps r (assignTs r ts delta) :=
  ⟨rfl, rfl, rfl, rfl, rfl, rfl, rfl, rfl, rfl, rfl, rfl, rfl, rfl, .ite _ _ _⟩

theorem firstDataTag (r : Reader) (ts : Nat) : Stamps r (firstDataTag r ts) := by
  unfold Impl.Cutter.firstDataTag
  refine trans ?_ (gotData _)
  split
  · exact assignTs _ _ _
  · exact setTs _ _ _

theorem headerOver (r : Reader) (ts : Nat) : Stamps r (headerOver r ts) := by
  have h : ∀ t : Reader, Stamps t (setHeaderOver t) := fun t =>
    ⟨rfl, rfl, rfl, rfl, rfl, rfl, rfl, rfl, rfl, rfl, rfl, rfl, rfl, .refl _⟩
  unfold Impl.Cutter.headerOver
  split
  · exact h r
  · exact (firstDataTag r ts).trans (h _)

theorem beginData (r : Reader) (ts : Nat) : Stamps r (beginData r ts) := by
  unfold Impl.Cutter.beginData
  split
  · exact .refl r
  · refine trans ?_ (gotData _)
    split
    · exact setTs _ _ _
    · exact .refl r

theorem stampTag (r : Reader) (ts : Nat) : Stamps r (stampTag r ts) := by
  unfold Impl.Cutter.stampTag
  split
  · dsimp only
    split_ifs <;> exact assignTs _ _ _
  · split
    · exact assignTs _ _ _
    · exact setTs _ _ _

theorem placeTag (r : Reader) : Stamps (typeTag r) (placeTag r) := by
  have hs : ∀ t : Reader, Stamps t (slotTag t) := fun t =>
    ⟨rfl, rfl, rfl, rfl, rfl, rfl, rfl, rfl, rfl, rfl, rfl, rfl, rfl, .refl _⟩
  exact (beginData _ _).trans ((stampTag _ _).trans (hs _))

end Stamps

/-- A tag leads to a slot advance or to nothing, unless it restarts. -/
theorem cutTag_cases {r : Reader} {out : Reader × List Call} (h : cutTag r = some out) :
    out = advanceSlot r ∨ out = (r, []) := by
  unfold cutTag at h
  split at h
  · exact .inl (Option.some.inj h).symm
  · split at h
    · split at h
      · split at h
        · exact .inl (Option.some.inj h).symm
        · exact .inr (Option.some.inj h).symm
      · split at h
        · cases h
        · exact .inr (Option.some.inj h).symm
    · exact .inr (Option.some.inj h).symm

/-- A slot advance is detected at a tag: `ts_delta > 0`, also behind the wrap. -/
def slotAdvances (r : Reader) : Prop :=
  tsDelta r > 0 ∨ tsDelta r < 0 ∧ (r.curPieceTs > 429490 ∧ r.curFlvTagTs < 10) ∧ wrapDelta r > 0

instance (r : Reader) : Decidable (slotAdvances r) := inferInstanceAs (Decidable (_ ∨ _))

theorem cutTag_of_advances {r : Reader} (h : slotAdvances r) : cutTag r = some (advanceSlot r) := by
  unfold cutTag
  rcases h with h | ⟨h₁, h₂, h₃⟩
  · rw [if_pos h]
  · rw [if_neg (by omega), if_pos h₁, if_pos h₂, if_pos h₃]

theorem cutTag_of_not_advances {r : Reader} (h : ¬ slotAdvances r) : cutTag r = some (r, []) ∨ cutTag r = none := by
  simp only [slotAdvances, not_or, not_and] at h
  unfold cutTag
  rw [if_neg h.1]
  split
  · split
    · exact .inl (if_neg (h.2 ‹_› ‹_›))
    · split
      · exact .inr rfl
      · exact .inl rfl
  · exact .inl rfl

theorem advanceSlot_cases (r : Reader) :
    (r.cutWithKf = true ∧ (advanceSlot r).2 = [] ∧ (advanceSlot r).1.piece = r.piece) ∨
    (r.cutWithKf = false ∧ (advanceSlot r).2 = [.asyncWritePiece r.piece r.seekPointPos r.flvTagTimestamp] ∧
      (advanceSlot r).1.piece = []) := by
  unfold advanceSlot
  split
  · exact .inl ⟨‹_›, rfl, rfl⟩
  · exact .inr ⟨Bool.eq_false_iff.mpr ‹_›, rfl, rfl⟩

/-- What a slot advance does not touch. -/
theorem advanceSlot_frame (r : Reader) :
    (advanceSlot r).1.readingBuffer = r.readingBuffer ∧ (advanceSlot r).1.cutWithKf = r.cutWithKf ∧
    (advanceSlot r).1.stat = r.stat ∧ (advanceSlot r).1.curFlvTagType = r.curFlvTagType ∧
    (advanceSlot r).1.aacSequenceHeader = r.aacSequenceHeader ∧
    (advanceSlot r).1.avcSequenceHeader = r.avcSequenceHeader ∧
    (advanceSlot r).1.isReaderReady = r.isReaderReady := by
  unfold advanceSlot
  split <;> exact ⟨rfl, rfl, rfl, rfl, rfl, rfl, rfl⟩

/-- A tag body in the data phase cuts at a key frame or leaves the piece alone. -/
theorem dataTag_cases (r : Reader) :
    ((dataTag r).2 = [] ∧ (dataTag r).1.piece = r.piece ∧ (dataTag r).1.shouldCutCount = r.shouldCutCount) ∨
    ((r.curFlvTagType = flvVideodata ∧ isKeyFrame r.readingBuffer = true ∧ r.shouldCutCount > 0) ∧ r.cutWithKf = true ∧
      dataTag r = cutAtKeyFrame r) := by
  unfold dataTag keyFrame
  split
  · split <;> exact .inl ⟨rfl, rfl, rfl⟩
  · split
    · split
      · exact .inl ⟨rfl, rfl, rfl⟩
      · split
        · split
          · split
            · exact .inr ⟨⟨‹_›, ‹_›, ‹_›⟩, ‹_›, rfl⟩
            · exact .inl ⟨rfl, rfl, rfl⟩
          · exact .inl ⟨rfl, rfl, rfl⟩
        · exact .inl ⟨rfl, rfl, rfl⟩
    · exact .inl ⟨rfl, rfl, rfl⟩

theorem insertEmptyPieces_cases (r : Reader) :
    (insertEmptyPieces r).1.piece = r.piece ∧
    ∃ k, (insertEmptyPieces r).2 = List.replicate k (.asyncWritePiece [] 0 0) := by
  unfold insertEmptyPieces
  split
  · exact ⟨rfl, _, rfl⟩
  · exact ⟨rfl, 0, rfl⟩

/-- An audio or a video tag. -/
def IsMedia (head : Buffer) : Prop := tagType head = flvAudiodata ∨ tagType head = flvVideodata

/-- A tag header in the data phase is given its timestamp and appended, after a
slot advance or not, unless the reader restarts. -/
theorem flvDataTaghead_cases {r : Reader} (h : (flvDataTaghead r).resume = true) :
    ∃ s, Stamps (typeTag r) s ∧ (¬ IsMedia r.readingBuffer → s.readingBuffer = r.readingBuffer) ∧
      (flvDataTaghead r = ⟨appendTagHead s, [], true⟩ ∨
        (IsMedia r.readingBuffer ∧ flvDataTaghead r = ⟨appendTagHead (advanceSlot s).1, (advanceSlot s).2, true⟩)) := by
  by_cases hm : IsMedia r.readingBuffer
  · have hm' : tagType r.readingBuffer = flvAudiodata ∨ tagType r.readingBuffer = flvVideodata := hm
    refine ⟨placeTag r, .placeTag r, fun h => absurd hm h, ?_⟩
    rw [flvDataTaghead, if_pos hm'] at h ⊢
    cases hc : cutTag (placeTag r) with
    | none => rw [hc] at h; cases h
    | some out =>
      rcases cutTag_cases hc with rfl | rfl
      · exact .inr ⟨hm, rfl⟩
      · exact .inl rfl
  · exact ⟨typeTag r, .refl _, fun _ => rfl, .inl (if_neg hm)⟩

theorem flvDataTaghead_advances {r : Reader} (hm : IsMedia r.readingBuffer) (ha : slotAdvances (placeTag r)) :
    flvDataTaghead r = ⟨appendTagHead (advanceSlot (placeTag r)).1, (advanceSlot (placeTag r)).2, true⟩ := by
  have e : flvDataTaghead r = _ := if_pos hm
  rw [e, cutTag_of_advances ha]

theorem flvDataTaghead_stays {r : Reader} (hm : IsMedia r.readingBuffer) (ha : ¬ slotAdvances (placeTag r)) :
    flvDataTaghead r = ⟨appendTagHead (placeTag r), [], true⟩ ∨ flvDataTaghead r = restart (bigGap (placeTag r)) := by
  have e : flvDataTaghead r = _ := if_pos hm
  rw [e]
  rcases cutTag_of_not_advances ha with h | h
  · rw [h]; exact .inl rfl
  · rw [h]; exact .inr rfl

/-- The header of an audio or video tag is appended, behind a cut or not, or the
reader restarts. -/
theorem flvDataTaghead_media {r : Reader} (hm : IsMedia r.readingBuffer) :
    flvDataTaghead r = ⟨appendTagHead (placeTag r), [], true⟩ ∨
      flvDataTaghead r = ⟨appendTagHead (advanceSlot (placeTag r)).1, (advanceSlot (placeTag r)).2, true⟩ ∨
      flvDataTaghead r = restart (bigGap (placeTag r)) := by
  by_cases ha : slotAdvances (placeTag r)
  · exact .inr (.inl (flvDataTaghead_advances hm ha))
  · exact (flvDataTaghead_stays hm ha).imp_right .inr

/-- A tag header in the header phase is appended; it ends the phase if it has a
timestamp and a head has been received. -/
theorem needHeadTaghead_cases (r : Reader) :
    ∃ u, needHeadTaghead r = ⟨pushTagHead u, [], true⟩ ∧ Stamps (beginTag r (getTagTs r.readingBuffer)) u ∧
      ((getTagTs r.readingBuffer > 0 ∧ (r.gotAudioHead = true ∨ r.gotVideoHead = true) ∧ u.isHeaderOver = true) ∨
        u = beginTag r (getTagTs r.readingBuffer)) := by
  by_cases h : getTagTs r.readingBuffer > 0 ∧ (r.gotAudioHead = true ∨ r.gotVideoHead = true)
  · exact ⟨_, if_pos h, .headerOver _ _, .inl ⟨h.1, h.2, rfl⟩⟩
  · exact ⟨_, if_neg h, .refl _, .inr rfl⟩

/-! ## The outcomes of a step -/

theorem headTag_frame (r : Reader) :
    (headTag r).1.stat = r.stat ∧ (headTag r).1.op = r.op ∧ (headTag r).1.isHeaderOver = r.isHeaderOver ∧
    (headTag r).1.readingBuffer = r.readingBuffer ∧ (headTag r).1.isReaderReady = r.isReaderReady := by
  unfold headTag
  split_ifs <;> exact ⟨rfl, rfl, rfl, rfl, rfl⟩

theorem dataTag_frame (r : Reader) :
    (dataTag r).1.stat = r.stat ∧ (dataTag r).1.op = r.op ∧ (dataTag r).1.readingBuffer = r.readingBuffer ∧
    (dataTag r).1.isReaderReady = r.isReaderReady := by
  unfold dataTag keyFrame cutAtKeyFrame
  split_ifs <;> exact ⟨rfl, rfl, rfl, rfl⟩

theorem insertEmptyPieces_frame (r : Reader) :
    (insertEmptyPieces r).1.stat = r.stat ∧ (insertEmptyPieces r).1.op = r.op ∧
    (insertEmptyPieces r).1.readingBuffer = r.readingBuffer ∧
    (insertEmptyPieces r).1.isReaderReady = r.isReaderReady := by
  unfold insertEmptyPieces
  split <;> exact ⟨rfl, rfl, rfl, rfl⟩

theorem readerError_not_mem_dataTag (r : Reader) : Call.readerError ∉ (dataTag r).2 := by
  unfold dataTag keyFrame cutAtKeyFrame updateHeaders
  split_ifs <;> simp

theorem readerError_not_mem_insertEmptyPieces (r : Reader) : Call.readerError ∉ (insertEmptyPieces r).2 := by
  unfold insertEmptyPieces
  split <;> simp

/-- In the header phase the parser goes on, posts the header piece and leaves
the phase, or restarts. -/
theorem parse_needHead {r : Reader} (h : r.stat = .needHead) :
    ((parse r).resume = true ∧ (parse r).calls = [] ∧ (parse r).reader.stat = .needHead) ∨
    ((parse r).resume = true ∧ (∃ p, (parse r).calls = [.asyncWritePiece p 0 0]) ∧
      (parse r).reader.stat = .needFlvData) ∨
    ((parse r).resume = false ∧ (parse r).calls = [.readerError] ∧ (parse r).reader.stat = .needHead) := by
  cases hr : r.readingStat with
  | head =>
    simp only [parse, h, hr, needHeadHead]
    split
    · exact .inl ⟨rfl, rfl, rfl⟩
    · exact .inr (.inr ⟨rfl, rfl, h⟩)
  | flvTaghead =>
    simp only [parse, h, hr, needHeadTaghead]
    split
    · exact .inl ⟨rfl, rfl, (Stamps.headerOver (beginTag r _) _).stat.trans h⟩
    · exact .inl ⟨rfl, rfl, h⟩
  | flvTagbody =>
    simp only [parse, h, hr, needHeadTagbody]
    split
    · exact .inr (.inl ⟨rfl, ⟨_, rfl⟩, rfl⟩)
    · split
      · exact .inr (.inl ⟨rfl, ⟨_, rfl⟩, rfl⟩)
      · exact .inl ⟨rfl, rfl, (headTag_frame r).1.trans h⟩

/-- In the data phase the parser goes on, posting pieces and headers only, or
restarts. -/
theorem parse_needFlvData {r : Reader} (h : r.stat = .needFlvData) :
    ((parse r).resume = true ∧ Call.readerError ∉ (parse r).calls ∧ (parse r).reader.stat = .needFlvData) ∨
    ((parse r).resume = false ∧ (parse r).calls = [.readerError] ∧ (parse r).reader.stat = .needFlvData) := by
  cases hr : r.readingStat with
  | head =>
    have e : parse r = ⟨r, [], true⟩ := by simp only [parse, h, hr]
    rw [e]; exact .inl ⟨rfl, by simp, h⟩
  | flvTaghead =>
    have ht : parse r = flvDataTaghead r := by simp only [parse, h, hr]
    have hs : (placeTag r).stat = .needFlvData := (Stamps.placeTag r).stat.trans h
    rw [ht]
    by_cases hm : IsMedia r.readingBuffer
    · rcases flvDataTaghead_media hm with e | e | e
      · rw [e]
        exact .inl ⟨rfl, by simp, hs⟩
      · have hcalls : Call.readerError ∉ (advanceSlot (placeTag r)).2 := by
          rcases advanceSlot_cases (placeTag r) with ⟨-, hc, -⟩ | ⟨-, hc, -⟩ <;> simp [hc]
        have happend : ∀ s, (appendTagHead s).stat = s.stat := fun _ => rfl
        rw [e]
        exact .inl ⟨rfl, hcalls, (happend _).trans ((advanceSlot_frame (placeTag r)).2.2.1.trans hs)⟩
      · rw [e]
        exact .inr ⟨rfl, rfl, hs⟩
    · have e : flvDataTaghead r = ⟨appendTagHead (typeTag r), [], true⟩ := if_neg hm
      rw [e]
      exact .inl ⟨rfl, by simp, h⟩
  | flvTagbody =>
    have happend : ∀ s, (appendTagBody (countSeek s)).stat = s.stat := fun _ => rfl
    simp only [parse, h, hr, flvDataTagbody]
    refine .inl ⟨trivial, ?_, ?_⟩
    · simp only [List.mem_append, not_or]
      exact ⟨readerError_not_mem_dataTag r, readerError_not_mem_insertEmptyPieces _⟩
    · rw [happend, (insertEmptyPieces_frame _).1, (dataTag_frame r).1]
      exact h

/-- The parser itself starts no operation. -/
theorem parse_op (r : Reader) : (parse r).reader.op = r.op := by
  cases hs : r.stat <;> cases hr : r.readingStat <;> simp only [parse, hs, hr]
  · simp only [needHeadHead]; split <;> rfl
  · simp only [needHeadTaghead]
    split
    · exact (Stamps.headerOver (beginTag r _) _).op
    · rfl
  · simp only [needHeadTagbody]
    split
    · rfl
    · split <;> exact (headTag_frame r).2.1
  · have happend : ∀ s, (appendTagHead s).op = s.op := fun _ => rfl
    have hp := (Stamps.placeTag r).op
    by_cases hm : IsMedia r.readingBuffer
    · rcases flvDataTaghead_media hm with e | e | e
      · rw [e]
        exact (happend _).trans hp
      · have hadv : (advanceSlot (placeTag r)).1.op = (placeTag r).op := by
          unfold advanceSlot
          split <;> rfl
        rw [e]
        exact (happend _).trans (hadv.trans hp)
      · have hrestart : ∀ s, (restart (bigGap s)).reader.op = s.op := fun _ => rfl
        rw [e]
        exact (hrestart _).trans hp
    · have e : flvDataTaghead r = ⟨appendTagHead (typeTag r), [], true⟩ := if_neg hm
      rw [e]
      rfl
  · have happend : ∀ s, (appendTagBody (countSeek s)).op = s.op := fun _ => rfl
    exact (happend _).trans ((insertEmptyPieces_frame _).2.1.trans (dataTag_frame r).2.1)

/-- Only a restart ends the connection. -/
theorem parse_isReaderReady {r : Reader} (h : (parse r).resume = true) :
    (parse r).reader.isReaderReady = r.isReaderReady := by
  cases hs : r.stat <;> cases hr : r.readingStat <;> simp only [parse, hs, hr] at h ⊢
  · simp only [needHeadHead] at h ⊢
    split at h
    · rename_i hf; rw [if_pos hf]
    · cases h
  · obtain ⟨u, e, hst, -⟩ := needHeadTaghead_cases r
    rw [e]; exact hst.isReaderReady
  · simp only [needHeadTagbody]
    split
    · rfl
    · split <;> exact (headTag_frame r).2.2.2.2
  · obtain ⟨s, hst, -, e | ⟨-, e⟩⟩ := flvDataTaghead_cases h
    · rw [e]; exact hst.isReaderReady
    · rw [e]; exact (advanceSlot_frame s).2.2.2.2.2.2.trans hst.isReaderReady
  · exact (insertEmptyPieces_frame _).2.2.2.trans (dataTag_frame r).2.2.2

/-- A step that does not go on has called `async_begin`. -/
theorem parse_stops {r : Reader} (h : (parse r).resume = false) : ∃ q, (parse r).reader = asyncBegin q := by
  cases hs : r.stat <;> cases hr : r.readingStat <;> simp only [parse, hs, hr] at h ⊢
  · simp only [needHeadHead] at h ⊢
    split at h
    · cases h
    · rename_i hf
      exact ⟨r, by rw [if_neg hf]; rfl⟩
  · obtain ⟨u, e, -⟩ := needHeadTaghead_cases r
    rw [e] at h
    cases h
  · simp only [needHeadTagbody] at h
    split_ifs at h
  · cases h
  · by_cases hm : IsMedia r.readingBuffer
    · rcases flvDataTaghead_media hm with e | e | e
      · rw [e] at h
        cases h
      · rw [e] at h
        cases h
      · exact ⟨bigGap (placeTag r), by rw [e]; rfl⟩
    · have e : flvDataTaghead r = ⟨appendTagHead (typeTag r), [], true⟩ := if_neg hm
      rw [e] at h
      cases h
  · cases h

/-! ## What the constructor sets -/

/-- The members that no step changes. -/
def config (r : Reader) : List Char × Bool × Bool × Nat := (r.url, r.needCutWithKf, r.needModifyTs, r.cutScale)

theorem headerOver_config (r : Reader) (ts : Nat) : config (headerOver r ts) = config r := by
  unfold headerOver firstDataTag
  split_ifs <;> rfl

theorem placeTag_config (r : Reader) : config (placeTag r) = config r := by
  have hb : ∀ ts, config (beginData (typeTag r) ts) = config r := fun ts => by
    unfold beginData
    split_ifs <;> rfl
  have hs : ∀ (q : Reader) ts, config (stampTag q ts) = config q := fun q ts => by
    unfold stampTag
    dsimp only
    split_ifs <;> rfl
  exact (hs _ _).trans (hb _)

theorem advanceSlot_config (r : Reader) : config (advanceSlot r).1 = config r := by
  unfold advanceSlot
  split <;> rfl

theorem headTag_config (r : Reader) : config (headTag r).1 = config r := by
  unfold headTag
  split_ifs <;> rfl

theorem dataTag_config (r : Reader) : config (dataTag r).1 = config r := by
  unfold dataTag keyFrame cutAtKeyFrame
  split_ifs <;> rfl

theorem insertEmptyPieces_config (r : Reader) : config (insertEmptyPieces r).1 = config r := by
  unfold insertEmptyPieces
  split <;> rfl

section
variable (r : Reader)

theorem appendTagHead_config : config (appendTagHead r) = config r := rfl

theorem appendTagBody_config : config (appendTagBody (countSeek r)) = config r := rfl

theorem restart_config : config (restart (bigGap r)).reader = config r := rfl

end

theorem parse_config (r : Reader) : config (parse r).reader = config r := by
  cases hs : r.stat <;> cases hr : r.readingStat <;> simp only [parse, hs, hr]
  · simp only [needHeadHead]
    split <;> rfl
  · simp only [needHeadTaghead]
    split
    · exact headerOver_config (beginTag r _) _
    · rfl
  · simp only [needHeadTagbody]
    split
    · rfl
    · split <;> exact headTag_config r
  · by_cases hm : IsMedia r.readingBuffer
    · rcases flvDataTaghead_media hm with e | e | e
      · rw [e]
        exact (appendTagHead_config _).trans (placeTag_config r)
      · rw [e]
        exact (appendTagHead_config _).trans ((advanceSlot_config _).trans (placeTag_config r))
      · rw [e]
        exact (restart_config _).trans (placeTag_config r)
    · have e : flvDataTaghead r = ⟨appendTagHead (typeTag r), [], true⟩ := if_neg hm
      rw [e]
      rfl
  · exact (appendTagBody_config _).trans ((insertEmptyPieces_config _).trans (dataTag_config r))

/-- The parser does not come to `STAT_NEED_FLV_DATA` with `READING_HEAD`. -/
def Parsing (r : Reader) : Prop := r.stat = .needFlvData → r.readingStat ≠ .head

theorem parsing_of_readingStat {r : Reader} (h : r.readingStat ≠ .head) : Parsing r := fun _ => h

theorem parse_parsing {r : Reader} (h : Parsing r) : Parsing (parse r).reader := by
  have hb : ReadingStat.flvTagbody ≠ .head := by decide
  have ht : ReadingStat.flvTaghead ≠ .head := by decide
  cases hs : r.stat <;> cases hr : r.readingStat <;> simp only [parse, hs, hr]
  · simp only [needHeadHead]
    split
    · exact parsing_of_readingStat ht
    · exact h
  · simp only [needHeadTaghead]
    split <;> exact parsing_of_readingStat hb
  · simp only [needHeadTagbody]
    split
    · exact parsing_of_readingStat ht
    · split <;> exact parsing_of_readingStat ht
  · exact h
  · simp only [flvDataTaghead]
    split
    · cases hc : cutTag (placeTag r) with
      | none => exact parsing_of_readingStat ((Stamps.placeTag r).readingStat.trans hr ▸ ht)
      | some out => exact parsing_of_readingStat hb
    · exact parsing_of_readingStat hb
  · exact parsing_of_readingStat ht

/-- The parser asks for at least a byte next. -/
theorem parse_readingSize_pos {r : Reader} (h : 0 < r.readingSize) (hr : (parse r).resume = true) :
    0 < (parse r).reader.readingSize := by
  cases hs : r.stat <;> cases ht : r.readingStat <;> simp only [parse, hs, ht] at hr ⊢
  · simp only [needHeadHead] at hr ⊢
    split at hr
    · rename_i hf; rw [if_pos hf]; exact Nat.succ_pos _
    · cases hr
  · simp only [needHeadTaghead]
    split <;> exact Nat.succ_pos _
  · simp only [needHeadTagbody]
    split
    · exact Nat.succ_pos _
    · split <;> exact Nat.succ_pos _
  · exact h
  · simp only [flvDataTaghead] at hr ⊢
    split
    · cases hc : cutTag (placeTag r) with
      | none => simp only [hc, restart] at hr; split at hr <;> simp_all
      | some out => exact Nat.succ_pos _
    · exact Nat.succ_pos _
  · exact Nat.succ_pos _

end XH.Proof.Cutter
