import Xhome.Proof.Cutter.Notes

/-!
# Cutting at key frames

The data pieces a connection posts and the slot advances it detects are noted
(`accounts`). While `cut_with_kf_` is true, a slot advance is counted in
`should_cut_count_` and spent later, at a key frame or on an empty piece; so
pieces and pending cuts add up to the slot advances, and a piece that follows a
cut begins with the key frame of the cut (`keyFrame_cutting`).
-/

namespace XH.Proof.Cutter

open XH.Impl.Cutter

/-- The data pieces posted on a connection, the audio and video tags at which a
slot advance was detected, and whether `cut_with_kf_` has been true since the
header phase. -/
structure Account where
  posted : List Piece
  advances : Nat
  cutWithKf : Bool

/-- A slot advance is detected at the tag header in the buffer. -/
def Detects (r : Reader) : Prop := r.readingStat = .flvTaghead ∧ IsMedia r.readingBuffer ∧ slotAdvances (placeTag r)

instance (r : Reader) : Decidable (Detects r) :=
  inferInstanceAs (Decidable (_ ∧ (tagType r.readingBuffer = flvAudiodata ∨ tagType r.readingBuffer = flvVideodata) ∧ _))

/-- The account of a connection begins at the end of the header phase. -/
def accounts : Notes Account where
  connected g := g
  parsed g r := match r.stat with
    | .needHead => ⟨[], 0, (parse r).reader.cutWithKf⟩
    | .needFlvData =>
      ⟨g.posted ++ pieces (parse r).calls, g.advances + if Detects r then 1 else 0, g.cutWithKf && (parse r).reader.cutWithKf⟩

/-- The piece begins with a video tag whose frame type is 1. -/
def StartsWithKeyFrame (p : Piece) : Prop :=
  ∃ head body rest, p = head :: body :: rest ∧ tagType head = flvVideodata ∧ isKeyFrame body = true

/-- The pieces that are not empty. -/
def nonEmpty (ps : List Piece) : List Piece := ps.filter (· ≠ [])

/-- All pieces behind the first one that is not empty begin with a key frame. -/
def KeyFrames (ps : List Piece) : Prop := ∀ p ∈ (nonEmpty ps).tail, StartsWithKeyFrame p

/-- The whole tags of the piece at hand. -/
def wholeTags (r : Reader) : Piece :=
  match r.readingStat with
  | .flvTagbody => r.piece.dropLast
  | _ => r.piece

/-- The largest `should_cut_count_`. -/
def maxCuts : ReadingStat → Int
  | .flvTagbody => 3
  | _ => 2

/-- The account of a connection that cuts at key frames. -/
structure Balanced (r : Reader) (g : Account) : Prop where
  parsing : r.readingStat ≠ .head
  cutWithKf : r.cutWithKf = true
  count : g.posted.length + r.shouldCutCount = g.advances
  nonneg : 0 ≤ r.shouldCutCount
  le : r.shouldCutCount ≤ maxCuts r.readingStat
  posted : KeyFrames g.posted
  piece : nonEmpty g.posted = [] ∨ StartsWithKeyFrame (wholeTags r)
  last : r.readingStat = .flvTagbody → ∃ p head, r.piece = p ++ [head] ∧ tagType head = r.curFlvTagType

/-- Before the data phase no cut is pending; in it the account is balanced. -/
structure Accounted (r : Reader) (g : Account) : Prop where
  header : r.stat = .needHead → r.readingStat ≠ .head → r.shouldCutCount = 0
  data : r.stat = .needFlvData → g.cutWithKf = true → Balanced r g

/-! ## Pieces -/

theorem nonEmpty_append (ps ps' : List Piece) : nonEmpty (ps ++ ps') = nonEmpty ps ++ nonEmpty ps' :=
  List.filter_append _ _

theorem nonEmpty_replicate (n : Nat) : nonEmpty (List.replicate n []) = [] := by
  apply List.filter_eq_nil_iff.mpr
  intro p hp
  rw [List.eq_of_mem_replicate hp]
  simp

/-- The piece of a cut is posted. -/
theorem KeyFrames.concat {ps : List Piece} {p : Piece} (h : KeyFrames ps) (hp : nonEmpty ps = [] ∨ StartsWithKeyFrame p) :
    KeyFrames (ps ++ [p]) := by
  intro q hq
  rw [nonEmpty_append] at hq
  rcases hp with hp | hp
  · rw [hp, List.nil_append] at hq
    have hl : (nonEmpty [p]).length ≤ 1 := List.length_filter_le _ _
    have ht : (nonEmpty [p]).tail = [] := List.eq_nil_of_length_eq_zero (by rw [List.length_tail]; omega)
    rw [ht] at hq
    cases hq
  · cases hps : nonEmpty ps with
    | nil =>
      rw [hps, List.nil_append] at hq
      have hm := List.mem_of_mem_tail hq
      rw [List.mem_singleton.mp (List.mem_of_mem_filter hm)]
      exact hp
    | cons a l =>
      rw [hps, List.cons_append, List.tail_cons] at hq
      rcases List.mem_append.mp hq with hq | hq
      · apply h q
        rw [hps]
        exact hq
      · rw [List.mem_singleton.mp (List.mem_of_mem_filter hq)]
        exact hp

theorem StartsWithKeyFrame.append {p : Piece} (h : StartsWithKeyFrame p) (q : Piece) : StartsWithKeyFrame (p ++ q) := by
  obtain ⟨head, body, rest, rfl, h₁, h₂⟩ := h
  exact ⟨head, body, rest ++ q, rfl, h₁, h₂⟩

/-! ## A step of the parser -/

theorem headTag_shouldCutCount (r : Reader) : (headTag r).1.shouldCutCount = r.shouldCutCount := by
  unfold headTag
  split_ifs <;> rfl

section
variable {r : Reader} {g : Account}

theorem parsed_needHead (hs : r.stat = .needHead) : accounts.parsed g r = ⟨[], 0, (parse r).reader.cutWithKf⟩ := by
  simp only [accounts, hs]

theorem parsed_needFlvData (hs : r.stat = .needFlvData) : accounts.parsed g r =
    ⟨g.posted ++ pieces (parse r).calls, g.advances + if Detects r then 1 else 0,
      g.cutWithKf && (parse r).reader.cutWithKf⟩ := by
  simp only [accounts, hs]

/-- No cut is pending when the data phase begins. -/
theorem parse_needHead_count (hs : r.stat = .needHead) (h : r.readingStat ≠ .head → r.shouldCutCount = 0) :
    (parse r).reader.readingStat = .head ∨ (parse r).reader.shouldCutCount = 0 := by
  cases hr : r.readingStat with
  | head =>
    have e : parse r = needHeadHead r := by simp only [parse, hs, hr]
    rw [e, needHeadHead]
    split
    · exact .inr rfl
    · exact .inl hr
  | flvTaghead =>
    have e : parse r = needHeadTaghead r := by simp only [parse, hs, hr]
    obtain ⟨u, hu, hst, -⟩ := needHeadTaghead_cases r
    rw [e, hu]
    exact .inr (hst.shouldCutCount.trans (h (by rw [hr]; decide)))
  | flvTagbody =>
    have e : parse r = needHeadTagbody r := by simp only [parse, hs, hr]
    have h₀ : r.shouldCutCount = 0 := h (by rw [hr]; decide)
    rw [e, needHeadTagbody]
    split
    · exact .inr h₀
    · dsimp only
      split
      · exact .inr ((headTag_shouldCutCount r).trans h₀)
      · exact .inr ((headTag_shouldCutCount r).trans h₀)

/-- The data phase begins between two tags. -/
theorem parse_leaves (hs : r.stat = .needHead) (hs' : (parse r).reader.stat = .needFlvData) :
    (parse r).reader.readingStat = .flvTaghead := by
  cases hr : r.readingStat with
  | head =>
    have e : parse r = needHeadHead r := by simp only [parse, hs, hr]
    rw [e, needHeadHead] at hs'
    split at hs'
    · cases hs.symm.trans hs'
    · cases hs.symm.trans hs'
  | flvTaghead =>
    have e : parse r = needHeadTaghead r := by simp only [parse, hs, hr]
    obtain ⟨u, hu, hst, -⟩ := needHeadTaghead_cases r
    rw [e, hu] at hs'
    cases (hst.stat.trans hs).symm.trans hs'
  | flvTagbody =>
    have e : parse r = needHeadTagbody r := by simp only [parse, hs, hr]
    rw [e, needHeadTagbody]
    split
    · rfl
    · dsimp only
      split
      · rfl
      · rfl

/-- A step of the header phase; it may be the last. -/
theorem accounted_needHead (hs : r.stat = .needHead) (h : Accounted (core r) g) :
    Accounted (core (parse r).reader) (accounts.parsed g r) := by
  have hc := parse_needHead_count hs (h.header hs)
  rw [parsed_needHead hs]
  refine ⟨fun _ hr => hc.resolve_left hr, fun hs' hk => ?_⟩
  have hr : (parse r).reader.readingStat = .flvTaghead := parse_leaves hs hs'
  have h₀ : (parse r).reader.shouldCutCount = 0 := hc.resolve_left (by rw [hr]; decide)
  refine ⟨?_, hk, ?_, ?_, ?_, (fun p hp => by cases hp), .inl rfl, fun e => ?_⟩
  · show (parse r).reader.readingStat ≠ .head
    rw [hr]; decide
  · show (0 : Int) + (parse r).reader.shouldCutCount = 0
    rw [h₀]; rfl
  · show 0 ≤ (parse r).reader.shouldCutCount
    rw [h₀]
  · show (parse r).reader.shouldCutCount ≤ maxCuts (parse r).reader.readingStat
    rw [h₀, hr]; decide
  · cases hr.symm.trans e

/-- A tag header is appended, with a slot advance (`n = 1`) or without. -/
theorem Balanced.head {g' : Account} (h : Balanced (core r) g) (hr : r.readingStat = .flvTaghead) {t : Reader} {head : Buffer}
    {n : Nat} (hc : t.cutWithKf = r.cutWithKf) (hn : t.shouldCutCount = r.shouldCutCount + n) (hn₁ : n ≤ 1)
    (hrs : t.readingStat = .flvTagbody) (hp : t.piece = r.piece ++ [head]) (hty : tagType head = t.curFlvTagType)
    (hg : g'.posted = g.posted) (ha : g'.advances = g.advances + n) : Balanced (core t) g' := by
  have hcount : g.posted.length + r.shouldCutCount = g.advances := h.count
  have hnonneg : 0 ≤ r.shouldCutCount := h.nonneg
  have hle : r.shouldCutCount ≤ maxCuts r.readingStat := h.le
  rw [hr] at hle
  have hle : r.shouldCutCount ≤ 2 := hle
  have hwhole : wholeTags (core t) = wholeTags (core r) := by
    have h₁ : wholeTags (core t) = t.piece.dropLast := by
      show (match t.readingStat with | .flvTagbody => t.piece.dropLast | _ => t.piece) = _
      rw [hrs]
    have h₂ : wholeTags (core r) = r.piece := by
      show (match r.readingStat with | .flvTagbody => r.piece.dropLast | _ => r.piece) = _
      rw [hr]
    rw [h₁, h₂, hp, List.dropLast_concat]
  refine ⟨?_, hc.trans h.cutWithKf, ?_, ?_, ?_, ?_, ?_, fun _ => ⟨r.piece, head, hp, hty⟩⟩
  · show t.readingStat ≠ .head
    rw [hrs]; decide
  · show (g'.posted.length : Int) + t.shouldCutCount = g'.advances
    rw [hg, hn, ha]
    omega
  · show 0 ≤ t.shouldCutCount
    omega
  · show t.shouldCutCount ≤ maxCuts t.readingStat
    rw [hrs]
    show t.shouldCutCount ≤ 3
    omega
  · rw [hg]; exact h.posted
  · rw [hg, hwhole]; exact h.piece

/-- The reader gives up at a tag header. -/
theorem Balanced.restart {g' : Account} (h : Balanced (core r) g) (hr : r.readingStat = .flvTaghead) {t : Reader}
    (ht : Stamps (typeTag r) t) (hg : g'.posted = g.posted) (ha : g'.advances = g.advances) :
    Balanced (core (bigGap t)) g' := by
  have hrs : t.readingStat = r.readingStat := ht.readingStat
  have hp : t.piece = r.piece := ht.piece
  have hn : t.shouldCutCount = r.shouldCutCount := ht.shouldCutCount
  have hwhole : wholeTags (core (bigGap t)) = wholeTags (core r) := by
    show (match t.readingStat with | .flvTagbody => t.piece.dropLast | _ => t.piece) =
      match r.readingStat with | .flvTagbody => r.piece.dropLast | _ => r.piece
    rw [hrs, hp]
  refine ⟨?_, ht.cutWithKf.trans h.cutWithKf, ?_, ?_, ?_, ?_, ?_, fun e => ?_⟩
  · show t.readingStat ≠ .head
    rw [hrs]; exact h.parsing
  · show (g'.posted.length : Int) + t.shouldCutCount = g'.advances
    rw [hg, hn, ha]; exact h.count
  · show 0 ≤ t.shouldCutCount
    rw [hn]; exact h.nonneg
  · show t.shouldCutCount ≤ maxCuts t.readingStat
    rw [hn, hrs]; exact h.le
  · rw [hg]; exact h.posted
  · rw [hg, hwhole]; exact h.piece
  · cases hr.symm.trans (hrs.symm.trans e)

/-- A tag header of the data phase. -/
theorem balanced_taghead (hs : r.stat = .needFlvData) (hr : r.readingStat = .flvTaghead) (h : Balanced (core r) g) :
    Balanced (core (parse r).reader) (accounts.parsed g r) := by
  have he : parse r = flvDataTaghead r := by simp only [parse, hs, hr]
  have hkf : r.cutWithKf = true := h.cutWithKf
  rw [parsed_needFlvData hs, he]
  have hst := Stamps.placeTag r
  have hty : tagType (placeTag r).readingBuffer = (placeTag r).curFlvTagType :=
    hst.readingBuffer.tagType.trans hst.curFlvTagType.symm
  by_cases hm : IsMedia r.readingBuffer
  · by_cases ha : slotAdvances (placeTag r)
    · have hd : Detects r := ⟨hr, hm, ha⟩
      have hadv : advanceSlot (placeTag r) = ({ placeTag r with
          curPieceTs := (placeTag r).curFlvTagTs, shouldCutCount := (placeTag r).shouldCutCount + 1 }, []) :=
        if_pos (hst.cutWithKf.trans hkf)
      rw [flvDataTaghead_advances hm ha, if_pos hd, hadv]
      exact h.head (n := 1) hr hst.cutWithKf (congrArg (· + 1) hst.shouldCutCount) (Nat.le_refl 1) rfl
        (show (placeTag r).piece ++ _ = _ by rw [hst.piece]; rfl) hty (List.append_nil _) rfl
    · have hd : ¬ Detects r := fun hd => ha hd.2.2
      rcases flvDataTaghead_stays hm ha with e | e
      · rw [e, if_neg hd]
        exact h.head (n := 0) hr hst.cutWithKf (hst.shouldCutCount.trans (Int.add_zero _).symm) (Nat.zero_le 1) rfl
          (show (placeTag r).piece ++ _ = _ by rw [hst.piece]; rfl) hty (List.append_nil _) rfl
      · rw [e, if_neg hd]
        exact h.restart (t := placeTag r) hr hst (List.append_nil _) rfl
  · have hd : ¬ Detects r := fun hd => hm hd.2.1
    have e : flvDataTaghead r = ⟨appendTagHead (typeTag r), [], true⟩ := if_neg hm
    rw [e, if_neg hd]
    exact h.head (n := 0) hr rfl (Int.add_zero _).symm (Nat.zero_le 1) rfl rfl rfl (List.append_nil _) rfl

/-- What the body of a tag does to the account: nothing, or a cut. -/
theorem dataTag_balanced (h : Balanced (core r) g) (hr : r.readingStat = .flvTagbody) :
    (dataTag r).1.shouldCutCount + (pieces (dataTag r).2).length = r.shouldCutCount ∧ 0 ≤ (dataTag r).1.shouldCutCount ∧
      KeyFrames (g.posted ++ pieces (dataTag r).2) ∧
      (nonEmpty (g.posted ++ pieces (dataTag r).2) = [] ∨ StartsWithKeyFrame ((dataTag r).1.piece ++ [r.readingBuffer])) := by
  obtain ⟨p, head, hp, hty⟩ := h.last hr
  have hp : r.piece = p ++ [head] := hp
  have hnonneg : 0 ≤ r.shouldCutCount := h.nonneg
  have hpiece : nonEmpty g.posted = [] ∨ StartsWithKeyFrame p := by
    have hw : wholeTags (core r) = p := by
      show (match r.readingStat with | .flvTagbody => r.piece.dropLast | _ => r.piece) = _
      rw [hr, hp]
      exact List.dropLast_concat
    rw [← hw]
    exact h.piece
  rcases dataTag_cases r with ⟨e, ep, ec⟩ | ⟨⟨hv, hk, hc⟩, -, e⟩
  · have hps : pieces (dataTag r).2 = [] := by rw [e]; rfl
    rw [hps, List.append_nil, ec, ep, hp, List.append_assoc]
    exact ⟨Int.add_zero _, hnonneg, h.posted, hpiece.imp_right fun hs => hs.append _⟩
  · have hps : pieces (dataTag r).2 = [p] := by
      rw [e]
      show r.piece.dropLast :: pieces (updateHeaders r) = [p]
      rw [pieces_updateHeaders, hp, List.dropLast_concat]
    have hpc : (dataTag r).1.piece = [head] := by
      rw [e]
      show r.piece.getLast?.toList = _
      rw [hp, List.getLast?_concat]
      rfl
    have hcount : (dataTag r).1.shouldCutCount = r.shouldCutCount - 1 := by rw [e]; rfl
    rw [hps, hpc, hcount]
    refine ⟨by simp, by omega, h.posted.concat hpiece, .inr ⟨head, r.readingBuffer, [], rfl, hty.trans hv, hk⟩⟩

/-- The empty pieces are posted for all pending cuts but one. -/
theorem insertEmptyPieces_count (r : Reader) (h : 0 ≤ r.shouldCutCount) :
    ∃ k, (insertEmptyPieces r).2 = List.replicate k (.asyncWritePiece [] 0 0) ∧
      (insertEmptyPieces r).1.shouldCutCount + k = r.shouldCutCount ∧ 0 ≤ (insertEmptyPieces r).1.shouldCutCount ∧
      (insertEmptyPieces r).1.shouldCutCount ≤ 2 := by
  unfold insertEmptyPieces
  split
  · refine ⟨(r.shouldCutCount - 1).toNat, rfl, ?_, (by decide : (0 : Int) ≤ 1), (by decide : (1 : Int) ≤ 2)⟩
    show (1 : Int) + ((r.shouldCutCount - 1).toNat : Int) = r.shouldCutCount
    omega
  · refine ⟨0, rfl, Int.add_zero _, h, ?_⟩
    show r.shouldCutCount ≤ 2
    omega

/-- A tag body of the data phase. -/
theorem balanced_tagbody (hs : r.stat = .needFlvData) (hr : r.readingStat = .flvTagbody) (h : Balanced (core r) g)
    (hk : (parse r).reader.cutWithKf = true) : Balanced (core (parse r).reader) (accounts.parsed g r) := by
  have he : parse r = flvDataTagbody r := by simp only [parse, hs, hr]
  have hd : ¬ Detects r := fun hd => by cases hr.symm.trans hd.1
  obtain ⟨hcount, hnonneg, hposted, hpiece⟩ := dataTag_balanced h hr
  obtain ⟨k, hcalls, hk', hnonneg', hle⟩ := insertEmptyPieces_count (dataTag r).1 hnonneg
  have hpc : (insertEmptyPieces (dataTag r).1).1.piece = (dataTag r).1.piece := (insertEmptyPieces_cases (dataTag r).1).1
  have hbuf : (insertEmptyPieces (dataTag r).1).1.readingBuffer = r.readingBuffer :=
    (insertEmptyPieces_frame _).2.2.1.trans (dataTag_frame r).2.2.1
  have hps : pieces (flvDataTagbody r).calls = pieces (dataTag r).2 ++ List.replicate k [] := by
    show pieces ((dataTag r).2 ++ (insertEmptyPieces (dataTag r).1).2) = _
    rw [pieces_append, hcalls, pieces_empty]
  have hnone : nonEmpty (g.posted ++ (pieces (dataTag r).2 ++ List.replicate k [])) = nonEmpty (g.posted ++ pieces (dataTag r).2) := by
    rw [← List.append_assoc, nonEmpty_append, nonEmpty_replicate, List.append_nil]
  have hold : (g.posted.length : Int) + r.shouldCutCount = g.advances := h.count
  rw [parsed_needFlvData hs, he, if_neg hd, hps]
  rw [he] at hk
  refine ⟨(by decide : ReadingStat.flvTaghead ≠ .head), hk, ?_, hnonneg', hle, ?_, ?_, fun e => by cases e⟩
  · show ((g.posted ++ (pieces (dataTag r).2 ++ List.replicate k [])).length : Int) +
      (insertEmptyPieces (dataTag r).1).1.shouldCutCount = (g.advances + 0 : Nat)
    rw [List.length_append, List.length_append, List.length_replicate]
    omega
  · intro p hp
    rw [hnone] at hp
    exact hposted p hp
  · rw [hnone]
    show _ ∨ StartsWithKeyFrame ((insertEmptyPieces (dataTag r).1).1.piece ++ [(insertEmptyPieces (dataTag r).1).1.readingBuffer])
    rw [hpc, hbuf]
    exact hpiece

theorem Accounted.parse (h : Accounted (core r) g) : Accounted (core (parse r).reader) (accounts.parsed g r) := by
  cases hs : r.stat with
  | needHead => exact accounted_needHead hs h
  | needFlvData =>
    have hst : (Impl.Cutter.parse r).reader.stat = .needFlvData := by
      rcases parse_needFlvData hs with ⟨-, -, e⟩ | ⟨-, -, e⟩
      · exact e
      · exact e
    refine ⟨fun hs' => ?_, fun _ hk => ?_⟩
    · cases hst.symm.trans hs'
    · rw [parsed_needFlvData hs] at hk
      obtain ⟨hg, hk⟩ := (Bool.and_eq_true _ _).mp hk
      have hb : Balanced (core r) g := h.data hs hg
      cases hr : r.readingStat with
      | head => exact absurd hr hb.parsing
      | flvTaghead => exact balanced_taghead hs hr hb
      | flvTagbody => exact balanced_tagbody hs hr hb hk

theorem accounts_keeps : accounts.Keeps (fun _ _ => True) Accounted Accounted where
  lasts _ _ h := h
  begin _ _ _ := ⟨fun _ h => absurd rfl h, fun h => by cases h⟩
  connect _ _ h := h
  stops _ _ h _ _ _ := h.parse
  parse _ _ h _ _ _ := h.parse

end

/-- On every connection, while `cut_with_kf_` has been true since the header
phase: each data piece behind the first one that is not empty is empty or begins
with a key frame; the data pieces posted and the pending cuts are as many as the
slot advances detected; and after a tag body at most two cuts are pending. -/
theorem keyFrame_cutting (url : List Char) (kf modify : Bool) (scale mediaTs : Nat) {s : Noted Account}
    (h : Reach accounts.step (fun _ _ => True) ⟨startReader url kf modify scale mediaTs, ⟨[], 0, true⟩⟩ s)
    (hs : s.reader.stat = .needFlvData) (hk : s.note.cutWithKf = true) :
    (∀ p ∈ (s.note.posted.filter (· ≠ [])).tail, StartsWithKeyFrame p) ∧
    s.note.posted.length + s.reader.shouldCutCount = s.note.advances ∧
    (s.reader.readingStat = .flvTaghead → 0 ≤ s.reader.shouldCutCount ∧ s.reader.shouldCutCount ≤ 2) := by
  have h₀ : Accounted (core (startReader url kf modify scale mediaTs)) ⟨[], 0, true⟩ :=
    ⟨fun _ h => absurd rfl h, fun h => by cases h⟩
  have ha := Notes.invariant accounts_keeps h₀ rfl (fun e => by cases e) (h.mono fun _ _ _ _ _ => trivial)
  have hb : Balanced (core s.reader) s.note := ha.data hs hk
  refine ⟨hb.posted, hb.count, fun hr => ⟨hb.nonneg, ?_⟩⟩
  have hle : s.reader.shouldCutCount ≤ maxCuts s.reader.readingStat := hb.le
  rw [hr] at hle
  exact hle

/-- Both heads, then a key frame in each of three slots with another tag behind it. -/
def threeKeyFrames : List Event :=
  connected ++ (requests [videoKey 1000, audio 1010, videoKey 2000, audio 2010, videoKey 3000]).map .data

theorem keyFrame_cutting_threeKeyFrames :
    ∃ s, Reach accounts.step (fun _ _ => True) ⟨startReader ['u'] true false 1 0, ⟨[], 0, true⟩⟩ s ∧
      s.note.posted.map List.length = [0, 4, 4] ∧ s.note.advances = 3 ∧
      (∀ p ∈ (s.note.posted.filter (· ≠ [])).tail, StartsWithKeyFrame p) ∧
      s.note.posted.length + s.reader.shouldCutCount = s.note.advances := by
  have h : (runEvents accounts.step ⟨startReader ['u'] true false 1 0, ⟨[], 0, true⟩⟩ threeKeyFrames).map
      (fun s => (s.reader.stat, s.note.cutWithKf, s.note.posted.map List.length, s.note.advances)) =
      some (.needFlvData, true, [0, 4, 4], 3) := by
    decide +kernel
  obtain ⟨s, hr, h⟩ := Option.map_eq_some_iff.mp h
  have hreach := Reach.of_runIf hr
  have hc := keyFrame_cutting ['u'] true false 1 0 hreach (congrArg (·.1) h) (congrArg (·.2.1) h)
  exact ⟨s, hreach, congrArg (·.2.2.1) h, congrArg (·.2.2.2) h, hc.1, hc.2.1⟩

end XH.Proof.Cutter
