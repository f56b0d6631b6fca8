import Xhome.Proof.Cutter.Notes

/-!
# Rewritten timestamps

The timestamp an audio or video tag is given, as a function of its own one and
of `flv_tag_timestamp_` and `flv_tag_ts_delta_`, as long as nothing wraps at
`2^31`: in the data phase `dataTs`, at the end of the header phase `headTs`. The
tags placed in pieces are noted with the timestamp they came with and the one
left in their header (`stampings`).
-/

namespace XH.Proof.Cutter

open XH.Impl.Cutter

/-- The timestamp of the tag header in the buffer. -/
def sourceTs (r : Reader) : Nat := getTagTs r.readingBuffer

/-- `flv_tag_timestamp_` and `flv_tag_ts_delta_` as a tag of the data phase finds
them. -/
def offsetOf (r : Reader) : Nat × Nat :=
  if r.gotFirstDataTag = false ∧ sourceTs r < r.flvTagTimestamp then
    (r.flvTagTimestamp + 500, r.flvTagTimestamp + 500 - sourceTs r)
  else (r.flvTagTimestamp, r.flvTagTsDelta)

/-- The tag would get the last timestamp given again. -/
def raises (r : Reader) : Bool := sourceTs r + (offsetOf r).2 == (offsetOf r).1

/-- The timestamp given to a tag of the data phase. -/
def dataTs (r : Reader) : Nat := sourceTs r + (offsetOf r).2 + (raises r).toNat

/-- The timestamp given to the tag that ends the header phase. -/
def headTs (r : Reader) : Nat := if sourceTs r < r.flvTagTimestamp then r.flvTagTimestamp + 500 else sourceTs r

/-- The tag header in the buffer ends the header phase. -/
def EndsHeader (r : Reader) : Prop :=
  (r.stat = .needHead ∧ r.readingStat = .flvTaghead) ∧ sourceTs r > 0 ∧ (r.gotAudioHead = true ∨ r.gotVideoHead = true)

/-- The tag header in the buffer is of an audio or video tag of the data phase. -/
def MediaHead (r : Reader) : Prop := (r.stat = .needFlvData ∧ r.readingStat = .flvTaghead) ∧ IsMedia r.readingBuffer

instance (b : Buffer) : Decidable (IsMedia b) := inferInstanceAs (Decidable (_ ∨ _))

instance (r : Reader) : Decidable (EndsHeader r) := inferInstanceAs (Decidable (_ ∧ _))

instance (r : Reader) : Decidable (MediaHead r) := inferInstanceAs (Decidable (_ ∧ _))

/-- Nothing wraps at `2^31`. -/
def NoWrap (r : Reader) : Prop := (EndsHeader r → headTs r < 2 ^ 31) ∧ (MediaHead r → dataTs r < 2 ^ 31)

instance (r : Reader) : Decidable (NoWrap r) := inferInstanceAs (Decidable (_ ∧ _))

/-! ## Notes -/

/-- An audio or video tag in a data piece: the timestamp it came with, the one
left in its header, and whether it would have got the last one given again. -/
structure Placed where
  source : Nat
  stamp : Nat
  raised : Bool
  deriving DecidableEq

/-- The timestamps left on earlier connections, the tags placed on this one, and
the pieces posted on it. -/
structure Stamping where
  earlier : List Nat
  tags : List Placed
  posted : List Piece

/-- The timestamp left in the tag header last placed. -/
def stampLeft (r : Reader) : Nat := getTagTs (r.piece.getLast?.getD [])

/-- The audio or video tag that a step of the parser places in a data piece. -/
def placedTags (r : Reader) : List Placed :=
  if EndsHeader r ∧ IsMedia r.readingBuffer then [⟨sourceTs r, stampLeft (parse r).reader, false⟩]
  else if MediaHead r ∧ (parse r).resume = true then [⟨sourceTs r, stampLeft (parse r).reader, raises r⟩]
  else []

def stampings : Notes Stamping where
  connected g := ⟨g.earlier ++ g.tags.map (·.stamp), [], []⟩
  parsed g r := ⟨g.earlier, g.tags ++ placedTags r, g.posted ++ pieces (parse r).calls⟩

/-! ## The code -/

section
variable {r : Reader}

theorem placedTags_nil (he : ¬ EndsHeader r) (hm : ¬ MediaHead r) : placedTags r = [] := by
  rw [placedTags, if_neg fun hc => he hc.1, if_neg fun hc => hm hc.1]

/-- Only a step that reads a tag header places a tag. -/
theorem placedTags_of_ne (h : r.readingStat ≠ .flvTaghead) : placedTags r = [] :=
  placedTags_nil (fun he => h he.1.2) fun hm => h hm.1.2

theorem assignTs_ts {ts : Nat} (hm : r.needModifyTs = true) (hl : 8 ≤ r.readingBuffer.length) (ht : ts < 2 ^ 32) (delta : Nat) :
    getTagTs (assignTs r ts delta).readingBuffer = ts := by
  show getTagTs (if r.needModifyTs then setTagTs r.readingBuffer ts else r.readingBuffer) = ts
  rw [hm]
  exact getTagTs_setTagTs hl ht

/-- `stampTag` without a wrap. -/
theorem stampTag_noWrap {s t : Nat} (ht : t = s + r.flvTagTsDelta + (s + r.flvTagTsDelta == r.flvTagTimestamp).toNat)
    (h : t < 2 ^ 31) (hs : getTagTs r.readingBuffer = s) (hm : r.needModifyTs = true) (hl : 8 ≤ r.readingBuffer.length) :
    (stampTag r s).flvTagTimestamp = t ∧ (stampTag r s).flvTagTsDelta = r.flvTagTsDelta ∧
      getTagTs (stampTag r s).readingBuffer = t := by
  have hu : u32 (s + r.flvTagTsDelta) = s + r.flvTagTsDelta := u32_of_lt (by omega)
  by_cases he : s + r.flvTagTsDelta = r.flvTagTimestamp
  · have ht : t = r.flvTagTimestamp + 1 := by rw [ht, he, beq_self_eq_true]; rfl
    have hu' : u32 (r.flvTagTimestamp + 1) = t := by rw [u32_of_lt (by omega), ht]
    unfold stampTag
    rw [hu]
    split
    · rw [hu', if_neg (by omega)]
      exact ⟨rfl, rfl, assignTs_ts hm hl (by omega) _⟩
    · have h₀ : s = r.flvTagTimestamp := by omega
      rw [if_pos h₀, h₀, hu']
      exact ⟨rfl, rfl, assignTs_ts hm hl (by omega) _⟩
  · have ht : t = s + r.flvTagTsDelta := by rw [ht, beq_false_of_ne he]; rfl
    unfold stampTag
    rw [hu]
    split
    · rw [← ht, if_neg (by omega)]
      exact ⟨rfl, rfl, assignTs_ts hm hl (by omega) _⟩
    · have h₀ : r.flvTagTsDelta = 0 := by omega
      rw [if_neg (by omega)]
      have hst : s = t := by omega
      exact ⟨hst, rfl, hs.trans hst⟩

/-- The first data tag behind the last timestamp: it is given one half a second
later. -/
theorem dataTs_of_behind (hg : r.gotFirstDataTag = false) (hs : sourceTs r < r.flvTagTimestamp) :
    dataTs r = r.flvTagTimestamp + 501 := by
  have ho : offsetOf r = (r.flvTagTimestamp + 500, r.flvTagTimestamp + 500 - sourceTs r) := if_pos ⟨hg, hs⟩
  have he : sourceTs r + (r.flvTagTimestamp + 500 - sourceTs r) = r.flvTagTimestamp + 500 := by omega
  rw [dataTs, raises, ho, he, beq_self_eq_true]
  rfl

/-- The offset of a connection without a wrap. -/
theorem beginData_noWrap (h : dataTs r < 2 ^ 31) :
    (beginData (typeTag r) (sourceTs r)).flvTagTimestamp = (offsetOf r).1 ∧
      (beginData (typeTag r) (sourceTs r)).flvTagTsDelta = (offsetOf r).2 ∧
      (beginData (typeTag r) (sourceTs r)).readingBuffer = r.readingBuffer ∧
      (beginData (typeTag r) (sourceTs r)).needModifyTs = r.needModifyTs := by
  by_cases hc : r.gotFirstDataTag = false ∧ sourceTs r < r.flvTagTimestamp
  · have ho : offsetOf r = (r.flvTagTimestamp + 500, r.flvTagTimestamp + 500 - sourceTs r) := if_pos hc
    have hlt : r.flvTagTimestamp + 500 < 2 ^ 32 := by
      rw [dataTs_of_behind hc.1 hc.2] at h
      omega
    have e : beginData (typeTag r) (sourceTs r) =
        gotData (setTs (typeTag r) (r.flvTagTimestamp + 500) (r.flvTagTimestamp + 500 - sourceTs r)) := by
      rw [beginData, if_neg (show ¬ (typeTag r).gotFirstDataTag = true from hc.1 ▸ Bool.false_ne_true),
        if_pos (show sourceTs r < (typeTag r).flvTagTimestamp from hc.2),
        show u32 ((typeTag r).flvTagTimestamp + 500) = r.flvTagTimestamp + 500 from u32_of_lt hlt,
        sub32_of_le hlt (by omega)]
    rw [e, ho]
    exact ⟨rfl, rfl, rfl, rfl⟩
  · have ho : offsetOf r = (r.flvTagTimestamp, r.flvTagTsDelta) := if_neg hc
    rw [ho]
    unfold beginData
    split
    · exact ⟨rfl, rfl, rfl, rfl⟩
    · rename_i hg
      dsimp only
      rw [if_neg (show ¬ sourceTs r < (typeTag r).flvTagTimestamp from fun hs => hc ⟨Bool.eq_false_iff.mpr hg, hs⟩)]
      exact ⟨rfl, rfl, rfl, rfl⟩

/-- A tag of the data phase without a wrap. -/
theorem placeTag_noWrap (h : dataTs r < 2 ^ 31) (hm : r.needModifyTs = true) (hl : 8 ≤ r.readingBuffer.length) :
    (placeTag r).flvTagTimestamp = dataTs r ∧ (placeTag r).flvTagTsDelta = (offsetOf r).2 ∧
      getTagTs (placeTag r).readingBuffer = dataTs r := by
  obtain ⟨h₁, h₂, h₃, h₄⟩ := beginData_noWrap h
  have hst := stampTag_noWrap (r := beginData (typeTag r) (sourceTs r)) (s := sourceTs r) (t := dataTs r)
    (by rw [h₁, h₂]; rfl) h (by rw [h₃]; rfl) (h₄.trans hm) (by rw [h₃]; exact hl)
  exact ⟨hst.1, hst.2.1.trans h₂, hst.2.2⟩

/-- The tag that ends the header phase without a wrap. -/
theorem headerOver_noWrap (h : headTs r < 2 ^ 31) (hm : r.needModifyTs = true) (hl : 8 ≤ r.readingBuffer.length)
    (hg : r.gotFirstDataTag = false) (hd : r.flvTagTsDelta = 0) :
    (headerOver r (sourceTs r)).flvTagTimestamp = headTs r ∧
      (headerOver r (sourceTs r)).flvTagTsDelta = headTs r - sourceTs r ∧
      getTagTs (headerOver r (sourceTs r)).readingBuffer = headTs r := by
  have ho : headerOver r (sourceTs r) = setHeaderOver (firstDataTag r (sourceTs r)) := by
    rw [headerOver, hg]
    rfl
  rw [ho]
  unfold headTs at h ⊢
  by_cases hs : sourceTs r < r.flvTagTimestamp
  · rw [if_pos hs] at h ⊢
    have hw : wrapTs (u32 (r.flvTagTimestamp + 500)) = r.flvTagTimestamp + 500 := by
      rw [u32_of_lt (by omega), wrapTs, if_neg (by omega)]
    have hsub : sub32 (r.flvTagTimestamp + 500) (sourceTs r) = r.flvTagTimestamp + 500 - sourceTs r :=
      sub32_of_le (by omega) (by omega)
    have e : firstDataTag r (sourceTs r) =
        gotData (assignTs r (r.flvTagTimestamp + 500) (r.flvTagTimestamp + 500 - sourceTs r)) := by
      unfold firstDataTag
      dsimp only
      rw [hw, if_pos hs, hsub]
    -- with the values as variables: the timestamps themselves must not be unfolded
    have hf : ∀ ts delta, (setHeaderOver (gotData (assignTs r ts delta))).flvTagTimestamp = ts ∧
        (setHeaderOver (gotData (assignTs r ts delta))).flvTagTsDelta = delta := fun _ _ => ⟨rfl, rfl⟩
    rw [e]
    exact ⟨(hf _ _).1, (hf _ _).2, assignTs_ts hm hl (by omega) (r.flvTagTimestamp + 500 - sourceTs r)⟩
  · rw [if_neg hs]
    have e : firstDataTag r (sourceTs r) = gotData (setTs r (sourceTs r) r.flvTagTsDelta) := by
      unfold firstDataTag
      dsimp only
      rw [if_neg hs]
    have hf : ∀ ts delta, (setHeaderOver (gotData (setTs r ts delta))).flvTagTimestamp = ts ∧
        (setHeaderOver (gotData (setTs r ts delta))).flvTagTsDelta = delta ∧
        (setHeaderOver (gotData (setTs r ts delta))).readingBuffer = r.readingBuffer := fun _ _ => ⟨rfl, rfl, rfl⟩
    rw [e, Nat.sub_self, (hf _ _).2.2]
    exact ⟨(hf _ _).1, (hf _ _).2.1.trans hd, rfl⟩

/-! ## A step of the parser -/

theorem sourceTs_beginTag (ts : Nat) : sourceTs (beginTag r ts) = sourceTs r := rfl

theorem parse_endsHeader (h : EndsHeader r) :
    parse r = ⟨pushTagHead (headerOver (beginTag r (sourceTs r)) (sourceTs r)), [], true⟩ := by
  have e : parse r = needHeadTaghead r := by simp only [parse, h.1.1, h.1.2]
  rw [e]
  exact if_pos h.2

theorem parse_mediaHead (h : MediaHead r) : parse r = flvDataTaghead r := by
  simp only [parse, h.1.1, h.1.2]

/-- The tag that ends the header phase. -/
theorem endsHeader_noWrap (h : EndsHeader r) (hw : NoWrap r) (hs : Sized r) (hm : r.needModifyTs = true)
    (hg : r.gotFirstDataTag = false) (hd : r.flvTagTsDelta = 0) :
    (parse r).reader.flvTagTimestamp = headTs r ∧ (parse r).reader.flvTagTsDelta = headTs r - sourceTs r ∧
      stampLeft (parse r).reader = headTs r := by
  have hl : 8 ≤ (beginTag r (sourceTs r)).readingBuffer.length := by
    show 8 ≤ r.readingBuffer.length
    rw [hs h.1.2]
    decide
  have ht : headTs (beginTag r (sourceTs r)) = headTs r := rfl
  obtain ⟨h₁, h₂, h₃⟩ := headerOver_noWrap (r := beginTag r (sourceTs r)) (by rw [ht]; exact hw.1 h) hm hl hg hd
  rw [ht, sourceTs_beginTag] at *
  rw [parse_endsHeader h]
  refine ⟨h₁, h₂, ?_⟩
  show getTagTs ((_ ++ [_] : Piece).getLast?.getD []) = _
  rw [List.getLast?_concat]
  exact h₃

theorem advanceSlot_stamps (r : Reader) : (advanceSlot r).1.flvTagTimestamp = r.flvTagTimestamp ∧
    (advanceSlot r).1.flvTagTsDelta = r.flvTagTsDelta ∧ (advanceSlot r).1.readingBuffer = r.readingBuffer := by
  unfold advanceSlot
  split <;> exact ⟨rfl, rfl, rfl⟩

theorem stampLeft_appendTagHead (r : Reader) : stampLeft (appendTagHead r) = getTagTs r.readingBuffer := by
  show getTagTs ((r.piece ++ [r.readingBuffer]).getLast?.getD []) = _
  rw [List.getLast?_concat]
  rfl

section
variable (r : Reader)

theorem flvTagTimestamp_appendTagHead : (appendTagHead r).flvTagTimestamp = r.flvTagTimestamp := rfl

theorem flvTagTsDelta_appendTagHead : (appendTagHead r).flvTagTsDelta = r.flvTagTsDelta := rfl

theorem flvTagTimestamp_restart : (restart (bigGap r)).reader.flvTagTimestamp = r.flvTagTimestamp := rfl

theorem flvTagTsDelta_restart : (restart (bigGap r)).reader.flvTagTsDelta = r.flvTagTsDelta := rfl

end

/-- A tag of the data phase: placed, or left behind by a restart. -/
theorem mediaHead_noWrap (h : MediaHead r) (hw : NoWrap r) (hs : Sized r) (hm : r.needModifyTs = true) :
    (parse r).reader.flvTagTimestamp = dataTs r ∧ (parse r).reader.flvTagTsDelta = (offsetOf r).2 ∧
      ((parse r).resume = true → stampLeft (parse r).reader = dataTs r) := by
  have hl : 8 ≤ r.readingBuffer.length := by
    rw [hs h.1.2]
    decide
  obtain ⟨h₁, h₂, h₃⟩ := placeTag_noWrap (hw.2 h) hm hl
  rw [parse_mediaHead h]
  rcases flvDataTaghead_media h.2 with e | e | e
  · rw [e, flvTagTimestamp_appendTagHead, flvTagTsDelta_appendTagHead, stampLeft_appendTagHead]
    exact ⟨h₁, h₂, fun _ => h₃⟩
  · obtain ⟨e₁, e₂, e₃⟩ := advanceSlot_stamps (placeTag r)
    rw [e, flvTagTimestamp_appendTagHead, flvTagTsDelta_appendTagHead, stampLeft_appendTagHead, e₁, e₂, e₃]
    exact ⟨h₁, h₂, fun _ => h₃⟩
  · rw [e, flvTagTimestamp_restart, flvTagTsDelta_restart]
    exact ⟨h₁, h₂, nofun⟩

/-- What the reader remembers of the tags it has stamped. -/
def memory (r : Reader) : Nat × Nat × Bool := (r.flvTagTimestamp, r.flvTagTsDelta, r.gotFirstDataTag)

theorem headTag_memory (r : Reader) : memory (headTag r).1 = memory r := by
  unfold headTag
  split_ifs <;> rfl

theorem dataTag_memory (r : Reader) : memory (dataTag r).1 = memory r := by
  unfold dataTag keyFrame cutAtKeyFrame
  split_ifs <;> rfl

theorem insertEmptyPieces_memory (r : Reader) : memory (insertEmptyPieces r).1 = memory r := by
  unfold insertEmptyPieces
  split <;> rfl

theorem appendTagBody_memory (r : Reader) : memory (appendTagBody (countSeek r)) = memory r := rfl

/-- A step that stamps no tag changes nothing of it. -/
theorem parse_memory (hr : r.readingStat ≠ .head) (h : ¬ EndsHeader r) (h' : ¬ MediaHead r) :
    memory (parse r).reader = memory r := by
  cases hs : r.stat <;> cases ht : r.readingStat
  · exact absurd ht hr
  · have e : parse r = needHeadTaghead r := by simp only [parse, hs, ht]
    have e' : needHeadTaghead r = ⟨pushTagHead (beginTag r (sourceTs r)), [], true⟩ :=
      if_neg fun hc => h ⟨⟨hs, ht⟩, hc⟩
    rw [e, e']
    rfl
  · have e : parse r = needHeadTagbody r := by simp only [parse, hs, ht]
    rw [e, needHeadTagbody]
    split
    · rfl
    · dsimp only
      split
      · exact headTag_memory r
      · exact headTag_memory r
  · exact absurd ht hr
  · have e : parse r = flvDataTaghead r := by simp only [parse, hs, ht]
    have e' : flvDataTaghead r = ⟨appendTagHead (typeTag r), [], true⟩ := if_neg fun hm => h' ⟨⟨hs, ht⟩, hm⟩
    rw [e, e']
    rfl
  · have e : parse r = flvDataTagbody r := by simp only [parse, hs, ht]
    rw [e]
    exact (appendTagBody_memory _).trans ((insertEmptyPieces_memory _).trans (dataTag_memory r))

theorem gotFirstDataTag_placeTag (r : Reader) : (placeTag r).gotFirstDataTag = true := by
  have hb : ∀ (q : Reader) ts, (beginData q ts).gotFirstDataTag = true := fun q ts => by
    unfold beginData
    split
    · assumption
    · rfl
  have hs : ∀ (q : Reader) ts, (stampTag q ts).gotFirstDataTag = q.gotFirstDataTag := fun q ts => by
    unfold stampTag
    dsimp only
    split_ifs <;> rfl
  exact (hs _ _).trans (hb _ _)

/-- The file header: only a restart goes without a new offset. -/
theorem parse_fileheader (hs : r.stat = .needHead) (hr : r.readingStat = .head) :
    (parse r).reader.flvTagTimestamp = r.flvTagTimestamp ∧
    ((parse r).resume = true → (parse r).reader.stat = .needHead ∧ (parse r).reader.readingStat = .flvTaghead ∧
      (parse r).reader.gotFirstDataTag = false ∧ (parse r).reader.flvTagTsDelta = 0) := by
  have e : parse r = needHeadHead r := by simp only [parse, hs, hr]
  rw [e, needHeadHead]
  split
  · exact ⟨rfl, fun _ => ⟨hs, rfl, rfl, rfl⟩⟩
  · exact ⟨rfl, fun h => by cases h⟩

theorem parse_needModifyTs (r : Reader) : (parse r).reader.needModifyTs = r.needModifyTs :=
  congrArg (·.2.2.1) (parse_config r)

/-- No tag of the connection has been stamped before the header phase is over. -/
structure Unstamped (r : Reader) : Prop where
  parsing : Parsing r
  head : r.stat = .needHead → r.readingStat = .flvTaghead → r.gotFirstDataTag = false ∧ r.flvTagTsDelta = 0
  body : r.stat = .needHead → r.readingStat = .flvTagbody → r.isHeaderOver = false →
    r.gotFirstDataTag = false ∧ r.flvTagTsDelta = 0

theorem Unstamped.parse (h : Unstamped (core r)) (hres : (parse r).resume = true) : Unstamped (core (parse r).reader) := by
  have hp : Parsing r := h.parsing
  have hmem : ∀ {q : Reader}, memory q = memory r → r.gotFirstDataTag = false ∧ r.flvTagTsDelta = 0 →
      q.gotFirstDataTag = false ∧ q.flvTagTsDelta = 0 := fun e hd =>
    ⟨(congrArg (·.2.2) e).trans hd.1, (congrArg (·.2.1) e).trans hd.2⟩
  cases hs : r.stat with
  | needFlvData =>
    have hst : (Impl.Cutter.parse r).reader.stat = .needFlvData := by
      rcases parse_needFlvData hs with ⟨-, -, e⟩ | ⟨-, -, e⟩ <;> exact e
    exact ⟨parse_parsing hp, (fun e => by cases hst.symm.trans e), fun e => by cases hst.symm.trans e⟩
  | needHead =>
    cases hr : r.readingStat with
    | head =>
      obtain ⟨-, hf⟩ := parse_fileheader hs hr
      obtain ⟨-, hr', hd⟩ := hf hres
      exact ⟨parse_parsing hp, fun _ _ => hd, fun _ e => by cases hr'.symm.trans e⟩
    | flvTaghead =>
      by_cases he : EndsHeader r
      · rw [parse_endsHeader he] at *
        exact ⟨parsing_of_readingStat (fun e => by cases e), (fun _ e => by cases e), fun _ _ ho => by cases ho⟩
      · have hn : ¬ MediaHead r := fun h' => by cases hs.symm.trans h'.1.1
        have hm := parse_memory (by rw [hr]; decide) he hn
        exact ⟨parse_parsing hp, fun _ _ => hmem hm (h.head hs hr), fun _ _ _ => hmem hm (h.head hs hr)⟩
    | flvTagbody =>
      have hn : ¬ MediaHead r := fun h' => by cases hs.symm.trans h'.1.1
      have he : ¬ EndsHeader r := fun h' => by cases hr.symm.trans h'.1.2
      have hm := parse_memory (by rw [hr]; decide) he hn
      have hpr : Impl.Cutter.parse r = needHeadTagbody r := by simp only [Impl.Cutter.parse, hs, hr]
      cases ho : r.isHeaderOver with
      | true =>
        have e : needHeadTagbody r = ⟨nextTag (postHeaderOver r), [.asyncWritePiece r.piece.dropLast 0 0], true⟩ := if_pos ho
        rw [hpr, e]
        exact ⟨parsing_of_readingStat (fun e => by cases e), (fun e => by cases e), fun e => by cases e⟩
      | false =>
        have hd := h.body hs hr ho
        exact ⟨parse_parsing hp, fun _ _ => hmem hm hd, fun _ _ _ => hmem hm hd⟩

end

end XH.Proof.Cutter
