import Xhome.Framework.Grouped
import Xhome.Proof.Cutter.KeyFrames
import Xhome.Proof.Cutter.Restamp

/-!
# Plain cutting

Each data piece is noted with the timestamp given to every audio or video tag in
it (`cuttings`). While `cut_with_kf_` is false and these timestamps do not go
back, `cur_piece_ts_` is the slot of the tag placed last, and a piece is posted
exactly where the slot grows: the pieces group the tags by slot
(`plain_cutting`).
-/

namespace XH.Proof.Cutter

open XH.Impl.Cutter

/-- A buffer of a piece, the header of an audio or video tag with the timestamp
given to the tag. -/
abbrev Labelled := Buffer × Option Nat

/-- The timestamps of the audio and video tags of a piece. -/
def stampsIn (p : List Labelled) : List Nat := p.filterMap (·.2)

/-- The data pieces posted on a connection, also with labels, the piece at hand,
the timestamps given in their order, `cur_piece_ts_` as the first of these tags is
compared with it, and whether `cut_with_kf_` has been false since the header
phase. -/
structure Cutting where
  posted : List Piece
  closed : List (List Labelled)
  current : List Labelled
  stamps : List Nat
  start : Option Nat
  plain : Bool

/-- What a step of the parser appends to the piece. -/
def appended (r : Reader) : Labelled :=
  ((parse r).reader.piece.getLast?.getD [],
    if r.readingStat = .flvTaghead ∧ IsMedia r.readingBuffer then some (parse r).reader.flvTagTimestamp else none)

/-- The tag that ends the header phase begins the first data piece. -/
def cuttings : Notes Cutting where
  connected g := g
  parsed g r :=
    let plain := !(parse r).reader.cutWithKf
    match r.stat with
    | .needHead =>
      if EndsHeader r then ⟨[], [], [appended r], (appended r).2.toList, none, plain⟩
      else if r.readingStat = .flvTagbody ∧ r.isHeaderOver = true then ⟨[], [], g.current ++ [appended r], g.stamps, none, plain⟩
      else ⟨[], [], [], [], none, plain⟩
    | .needFlvData =>
      let cut := pieces (parse r).calls
      ⟨g.posted ++ cut, if cut = [] then g.closed else g.closed ++ [g.current],
        (if cut = [] then g.current else []) ++ [appended r], g.stamps ++ (appended r).2.toList,
        if g.stamps = [] ∧ MediaHead r then some r.curPieceTs else g.start, g.plain && plain⟩

/-- `cut_with_kf_` is false, and the timestamps do not go back, stay below `2^31`
and begin at or behind the slot `cur_piece_ts_`, if it is one. -/
structure Ordered (scale : Nat) (g : Cutting) : Prop where
  plain : g.plain = true
  rising : g.stamps.Pairwise (· ≤ ·)
  small : ∀ t ∈ g.stamps, t < 2 ^ 31
  start : ∀ c ∈ g.start, c = noPieceTs ∨ ∀ t ∈ g.stamps.head?, c ≤ t / scale

/-- The header phase; the tag that ends it waits for its body. -/
structure HeaderCuts (r : Reader) (g : Cutting) : Prop where
  count : r.readingStat ≠ .head → r.shouldCutCount = 0
  notOver : r.readingStat = .flvTaghead → r.isHeaderOver = false
  ended : r.readingStat = .flvTagbody → r.isHeaderOver = true →
    ∃ p head ts, r.piece = p ++ [head] ∧ g.current = [(head, ts)] ∧ g.stamps = ts.toList ∧ ∀ t ∈ ts, t / r.cutScale = r.curFlvTagTs

/-- The data phase: the labels are those of the pieces, and the pieces group the
timestamps by slot, the one at hand with the slot `cur_piece_ts_`. -/
structure DataCuts (r : Reader) (g : Cutting) : Prop where
  parsing : r.readingStat ≠ .head
  cutWithKf : r.cutWithKf = false
  count : r.shouldCutCount = 0
  posted : g.posted = g.closed.map (·.map Prod.fst)
  piece : r.piece = g.current.map Prod.fst
  stamps : (g.closed.map stampsIn).flatten ++ stampsIn g.current = g.stamps
  grouped : Grouped (· / r.cutScale) (g.closed.map stampsIn) (stampsIn g.current) r.curPieceTs
  last : ∀ t ∈ g.stamps.getLast?, t / r.cutScale = r.curPieceTs

structure Cuts (r : Reader) (g : Cutting) : Prop where
  header : r.stat = .needHead → HeaderCuts r g
  data : r.stat = .needFlvData → Ordered r.cutScale g → DataCuts r g

/-! ## The slot of a tag -/

section
variable {r : Reader} {g : Cutting}

theorem cutScale_of_config {r t : Reader} (h : config t = config r) : t.cutScale = r.cutScale := congrArg (·.2.2.2) h

/-- The slot given to a tag, and the one it is compared with. -/
theorem placeTag_slot (r : Reader) : (placeTag r).curFlvTagTs = (placeTag r).flvTagTimestamp / r.cutScale ∧
    (placeTag r).curPieceTs = if r.curPieceTs = noPieceTs then (placeTag r).curFlvTagTs else r.curPieceTs := by
  have hc : (placeTag r).cutScale = r.cutScale := cutScale_of_config (placeTag_config r)
  have hb : ∀ ts, (beginData (typeTag r) ts).curPieceTs = r.curPieceTs := fun ts => by
    unfold beginData
    split_ifs <;> rfl
  have hs : ∀ (q : Reader) ts, (stampTag q ts).curPieceTs = q.curPieceTs := fun q ts => by
    unfold stampTag
    dsimp only
    split_ifs <;> rfl
  refine ⟨by rw [← hc]; rfl, ?_⟩
  have hp := (hs (beginData (typeTag r) (getTagTs r.readingBuffer)) (getTagTs r.readingBuffer)).trans (hb _)
  show (if (stampTag (beginData (typeTag r) _) _).curPieceTs = noPieceTs then _ else _) = _
  rw [hp]
  rfl

/-- A slot at or behind the one of the piece. -/
theorem cutTag_ordered (h : r.curPieceTs ≤ r.curFlvTagTs) (h' : r.curFlvTagTs < 2 ^ 31) :
    (r.curPieceTs < r.curFlvTagTs ∧ slotAdvances r) ∨ (r.curPieceTs = r.curFlvTagTs ∧ cutTag r = some (r, [])) := by
  have hd : tsDelta r = (r.curFlvTagTs : Int) - r.curPieceTs := i32_sub32 (by omega) (by omega) (by omega) (by omega)
  rcases Nat.lt_or_eq_of_le h with hlt | heq
  · refine .inl ⟨hlt, .inl ?_⟩
    omega
  · refine .inr ⟨heq, ?_⟩
    unfold cutTag
    rw [if_neg (by omega), if_neg (by omega)]

/-- A tag keeps the timestamp given to it, whatever follows. -/
theorem mediaHead_flvTagTimestamp (hm : MediaHead r) :
    (parse r).reader.flvTagTimestamp = (placeTag r).flvTagTimestamp := by
  rw [parse_mediaHead hm]
  rcases flvDataTaghead_media hm.2 with e | e | e
  · rw [e, flvTagTimestamp_appendTagHead]
  · rw [e, flvTagTimestamp_appendTagHead, (advanceSlot_stamps _).1]
  · rw [e, flvTagTimestamp_restart]

theorem appended_media (hm : MediaHead r) : (appended r).2 = some (placeTag r).flvTagTimestamp := by
  rw [appended, if_pos ⟨hm.1.2, hm.2⟩, mediaHead_flvTagTimestamp hm]

theorem appended_other (h : ¬ (r.readingStat = .flvTaghead ∧ IsMedia r.readingBuffer)) : (appended r).2 = none := by
  rw [appended, if_neg h]

theorem appended_fst {p : Piece} {b : Buffer} (h : (parse r).reader.piece = p ++ [b]) : (appended r).1 = b := by
  rw [appended, h, List.getLast?_concat]
  rfl

theorem cuttings_data (hs : r.stat = .needFlvData) : cuttings.parsed g r =
    ⟨g.posted ++ pieces (parse r).calls, if pieces (parse r).calls = [] then g.closed else g.closed ++ [g.current],
      (if pieces (parse r).calls = [] then g.current else []) ++ [appended r], g.stamps ++ (appended r).2.toList,
      if g.stamps = [] ∧ MediaHead r then some r.curPieceTs else g.start, g.plain && !(parse r).reader.cutWithKf⟩ := by
  simp only [cuttings, hs]

/-- What is ordered so far. -/
theorem Ordered.before (hs : r.stat = .needFlvData) {scale : Nat} (h : Ordered scale (cuttings.parsed g r)) : Ordered scale g := by
  rw [cuttings_data hs] at h
  obtain ⟨hp, hr, hs, hst⟩ := h
  refine ⟨((Bool.and_eq_true _ _).mp hp).1, (List.pairwise_append.mp hr).1, fun t ht => hs t (List.mem_append_left _ ht),
    fun c hc => ?_⟩
  cases hg : g.stamps with
  | nil => exact .inr fun t ht => by cases ht
  | cons t ts =>
    have hne : ¬ (g.stamps = [] ∧ MediaHead r) := fun e => by cases hg.symm.trans e.1
    have hst := hst c
    dsimp only at hst
    rw [if_neg hne, hg] at hst
    exact hst hc

/-! ## The data phase -/

theorem stampsIn_concat (p : List Labelled) (x : Labelled) : stampsIn (p ++ [x]) = stampsIn p ++ x.2.toList := by
  rw [stampsIn, List.filterMap_append]
  obtain ⟨b, l⟩ := x
  cases l <;> rfl

/-- A tag is compared with the slot of the piece at hand, and is not behind it. -/
theorem DataCuts.compare (h : DataCuts r g) (hm : MediaHead r) (ho : Ordered r.cutScale (cuttings.parsed g r)) :
    (placeTag r).curPieceTs ≤ (placeTag r).curFlvTagTs ∧ (placeTag r).curFlvTagTs < 2 ^ 31 ∧
    Grouped (· / r.cutScale) (g.closed.map stampsIn) (stampsIn g.current) (placeTag r).curPieceTs := by
  obtain ⟨hslot, hpiece⟩ := placeTag_slot r
  rw [cuttings_data hm.1.1] at ho
  obtain ⟨-, hrising, hsmall, hstart⟩ := ho
  dsimp only at hrising hsmall hstart
  rw [appended_media hm, Option.toList_some] at hrising hsmall hstart
  have ht : (placeTag r).flvTagTimestamp < 2 ^ 31 := hsmall _ (List.mem_append_right _ (List.mem_singleton_self _))
  have hlt : (placeTag r).curFlvTagTs < 2 ^ 31 := by
    rw [hslot]
    exact Nat.lt_of_le_of_lt (Nat.div_le_self _ _) ht
  rcases List.eq_nil_or_concat' g.stamps with hg | ⟨l, t, hg⟩
  · have hnone := h.stamps.trans hg
    obtain ⟨hclosed, hcurrent⟩ := List.append_eq_nil_iff.mp hnone
    refine ⟨?_, hlt, by rw [hcurrent]; exact .of_nil hclosed _⟩
    have hc := hstart r.curPieceTs (by rw [if_pos ⟨hg, hm⟩]; rfl)
    rw [hg, List.nil_append] at hc
    rw [hpiece]
    split
    · exact Nat.le_refl _
    · rw [hslot]
      exact hc.resolve_left ‹_› _ rfl
  · have hlast : t / r.cutScale = r.curPieceTs := h.last t (by rw [hg, List.getLast?_concat]; rfl)
    have hmem : t ∈ g.stamps := by rw [hg]; exact List.mem_append_right _ (List.mem_singleton_self t)
    have hle : t ≤ (placeTag r).flvTagTimestamp :=
      (List.pairwise_append.mp hrising).2.2 t hmem _ (List.mem_singleton_self _)
    have ht' : r.curPieceTs < 2 ^ 31 := by
      rw [← hlast]
      exact Nat.lt_of_le_of_lt (Nat.div_le_self _ _) (Nat.lt_of_le_of_lt hle ht)
    have hne : r.curPieceTs ≠ noPieceTs := by
      unfold noPieceTs
      omega
    rw [hpiece, if_neg hne, hslot, ← hlast]
    rw [hslot] at hlt
    exact ⟨Nat.div_le_div_right hle, hlt, hlast ▸ h.grouped⟩

/-- Something is appended to the piece at hand. -/
theorem DataCuts.append (h : DataCuts r g) {r' : Reader} {g' : Cutting} {x : Labelled} (hrs : r'.readingStat ≠ .head)
    (hkf : r'.cutWithKf = false) (hc : r'.shouldCutCount = 0) (hscale : r'.cutScale = r.cutScale)
    (hpiece : r'.piece = r.piece ++ [x.1]) (hposted : g'.posted = g.posted) (hclosed : g'.closed = g.closed)
    (hcurrent : g'.current = g.current ++ [x]) (hstamps : g'.stamps = g.stamps ++ x.2.toList)
    (hgrouped : Grouped (· / r.cutScale) (g.closed.map stampsIn) (stampsIn g.current ++ x.2.toList) r'.curPieceTs)
    (hlast : ∀ t ∈ (g.stamps ++ x.2.toList).getLast?, t / r.cutScale = r'.curPieceTs) : DataCuts r' g' := by
  refine ⟨hrs, hkf, hc, ?_, ?_, ?_, ?_, ?_⟩
  · rw [hposted, hclosed, h.posted]
  · rw [hpiece, hcurrent, List.map_append, h.piece]; rfl
  · rw [hclosed, hcurrent, hstamps, stampsIn_concat, ← List.append_assoc, h.stamps]
  · rw [hclosed, hcurrent, stampsIn_concat, hscale]; exact hgrouped
  · rw [hstamps, hscale]; exact hlast

/-- The piece at hand is posted, and a tag begins the next one. -/
theorem DataCuts.cut (h : DataCuts r g) {r' : Reader} {g' : Cutting} {x : Labelled} (hrs : r'.readingStat ≠ .head)
    (hkf : r'.cutWithKf = false) (hc : r'.shouldCutCount = 0) (hscale : r'.cutScale = r.cutScale)
    (hpiece : r'.piece = [x.1]) (hposted : g'.posted = g.posted ++ [r.piece]) (hclosed : g'.closed = g.closed ++ [g.current])
    (hcurrent : g'.current = [x]) (hstamps : g'.stamps = g.stamps ++ x.2.toList)
    (hgrouped : Grouped (· / r.cutScale) ((g.closed ++ [g.current]).map stampsIn) x.2.toList r'.curPieceTs)
    (hlast : ∀ t ∈ (g.stamps ++ x.2.toList).getLast?, t / r.cutScale = r'.curPieceTs) : DataCuts r' g' := by
  have hx : stampsIn [x] = x.2.toList := stampsIn_concat [] x
  refine ⟨hrs, hkf, hc, ?_, ?_, ?_, ?_, ?_⟩
  · rw [hposted, hclosed, List.map_append, h.posted, h.piece]; rfl
  · rw [hpiece, hcurrent]; rfl
  · rw [hclosed, hcurrent, hstamps, hx, List.map_append, List.flatten_append, ← h.stamps]
    simp
  · rw [hclosed, hcurrent, hx, hscale]; exact hgrouped
  · rw [hstamps, hscale]; exact hlast

theorem DataCuts.mediaHead (h : DataCuts r g) (hm : MediaHead r) (ho : Ordered r.cutScale (cuttings.parsed g r)) :
    DataCuts (parse r).reader (cuttings.parsed g r) := by
  obtain ⟨hle, hlt, hgrouped⟩ := h.compare hm ho
  have hslot := (placeTag_slot r).1
  have hst := Stamps.placeTag r
  have hx := appended_media hm
  have hkf : (placeTag r).cutWithKf = false := hst.cutWithKf.trans h.cutWithKf
  have hlast : ∀ {c}, (placeTag r).curFlvTagTs = c →
      ∀ t ∈ (g.stamps ++ (appended r).2.toList).getLast?, t / r.cutScale = c := fun e t ht => by
    rw [hx, Option.toList_some, List.getLast?_concat] at ht
    cases ht
    rw [← e, hslot]
  have hcount : (placeTag r).shouldCutCount = 0 := hst.shouldCutCount.trans h.count
  have hscale : (placeTag r).cutScale = r.cutScale := cutScale_of_config (placeTag_config r)
  rw [cuttings_data hm.1.1]
  rcases cutTag_ordered hle hlt with ⟨hlt', ha⟩ | ⟨heq, hcut⟩
  · have hadv : advanceSlot (placeTag r) = ({ placeTag r with
        piece := [], curPieceTs := (placeTag r).curFlvTagTs, gotSeekPoint := false, seekPointPos := 0 },
        [.asyncWritePiece (placeTag r).piece (placeTag r).seekPointPos (placeTag r).flvTagTimestamp]) :=
      if_neg (by rw [hkf]; decide)
    have hp : parse r = ⟨_, _, true⟩ := (parse_mediaHead hm).trans (flvDataTaghead_advances hm.2 ha)
    have hcalls : pieces (parse r).calls = [r.piece] := by
      rw [hp, hadv]
      exact congrArg (fun p => [p]) hst.piece
    have hb : (parse r).reader.piece = [] ++ [(placeTag r).readingBuffer] := by rw [hp, hadv]; rfl
    have hc : (parse r).reader.curPieceTs = (placeTag r).curFlvTagTs := by rw [hp, hadv]; rfl
    rw [hcalls]
    refine h.cut (x := appended r) ?_ ?_ ?_ ?_ ?_ rfl rfl rfl rfl ?_ (hlast hc.symm)
    · rw [hp, hadv]; exact fun e => by cases e
    · rw [hp, hadv]; exact hkf
    · rw [hp, hadv]; exact hcount
    · rw [hp, hadv]; exact hscale
    · rw [appended_fst hb, hb, List.nil_append]
    · rw [hx, hc, List.map_append]
      exact (hgrouped.close hlt').push hslot.symm
  · have hp : parse r = ⟨appendTagHead (placeTag r), [], true⟩ := by
      have e : flvDataTaghead r = _ := if_pos hm.2
      rw [parse_mediaHead hm, e, hcut]
    have hcalls : pieces (parse r).calls = [] := by rw [hp]; rfl
    have hb : (parse r).reader.piece = r.piece ++ [(placeTag r).readingBuffer] := by
      rw [hp, ← hst.piece.trans (show (typeTag r).piece = r.piece from rfl)]; rfl
    have hc : (parse r).reader.curPieceTs = (placeTag r).curPieceTs := by rw [hp]; rfl
    rw [hcalls]
    refine h.append (x := appended r) ?_ ?_ ?_ ?_ ?_ (List.append_nil _) rfl rfl rfl ?_ (hlast (heq.symm.trans hc.symm))
    · rw [hp]; exact fun e => by cases e
    · rw [hp]; exact hkf
    · rw [hp]; exact hcount
    · rw [hp]; exact hscale
    · rw [appended_fst hb, hb]
    · rw [hx, hc]
      exact hgrouped.push (hslot.symm.trans heq.symm)

/-- A step that posts nothing and appends a buffer without a timestamp. -/
theorem DataCuts.plainStep (h : DataCuts r g) (hs : r.stat = .needFlvData) (hx : (appended r).2 = none)
    (hcalls : pieces (parse r).calls = []) {b : Buffer} (hb : (parse r).reader.piece = r.piece ++ [b])
    (hrs : (parse r).reader.readingStat ≠ .head) (hkf : (parse r).reader.cutWithKf = false)
    (hc : (parse r).reader.shouldCutCount = r.shouldCutCount) (hp : (parse r).reader.curPieceTs = r.curPieceTs) :
    DataCuts (parse r).reader (cuttings.parsed g r) := by
  rw [cuttings_data hs, hcalls]
  refine h.append (x := appended r) hrs hkf (hc.trans h.count) (cutScale_of_config (parse_config r)) ?_
    (List.append_nil _) rfl rfl rfl ?_ ?_
  · rw [appended_fst hb, hb]
  · rw [hx, hp, Option.toList_none, List.append_nil]
    exact h.grouped
  · rw [hx, hp, Option.toList_none, List.append_nil]
    exact h.last

/-- A tag of another type stays in the piece at hand. -/
theorem parse_otherHead (hs : r.stat = .needFlvData) (hr : r.readingStat = .flvTaghead) (hm : ¬ IsMedia r.readingBuffer) :
    parse r = ⟨appendTagHead (typeTag r), [], true⟩ := by
  have e : parse r = flvDataTaghead r := by simp only [parse, hs, hr]
  exact e.trans (if_neg hm)

theorem DataCuts.otherHead (h : DataCuts r g) (hs : r.stat = .needFlvData) (hr : r.readingStat = .flvTaghead)
    (hm : ¬ IsMedia r.readingBuffer) : DataCuts (parse r).reader (cuttings.parsed g r) := by
  have hp := parse_otherHead hs hr hm
  have hb : (parse r).reader.piece = r.piece ++ [r.readingBuffer] := by rw [hp]; rfl
  refine h.plainStep hs (appended_other fun e => hm e.2) ?_ hb ?_ ?_ ?_ ?_
  · rw [hp]; rfl
  · rw [hp]; exact fun e => by cases e
  · rw [hp]; exact h.cutWithKf
  · rw [hp]; rfl
  · rw [hp]; rfl

theorem dataTag_curPieceTs (r : Reader) : (dataTag r).1.curPieceTs = r.curPieceTs := by
  unfold dataTag keyFrame cutAtKeyFrame
  split_ifs <;> rfl

/-- The body of a tag leads to no cut. -/
theorem dataTag_plain (h : r.cutWithKf = false) : (dataTag r).2 = [] ∧ (dataTag r).1.piece = r.piece ∧
    (dataTag r).1.shouldCutCount = r.shouldCutCount ∧ (dataTag r).1.curPieceTs = r.curPieceTs := by
  rcases dataTag_cases r with ⟨h₁, h₂, h₃⟩ | ⟨-, hk, -⟩
  · exact ⟨h₁, h₂, h₃, dataTag_curPieceTs r⟩
  · rw [h] at hk
    cases hk

theorem DataCuts.tagbody (h : DataCuts r g) (hs : r.stat = .needFlvData) (hr : r.readingStat = .flvTagbody)
    (ho : Ordered r.cutScale (cuttings.parsed g r)) : DataCuts (parse r).reader (cuttings.parsed g r) := by
  have hp : parse r = flvDataTagbody r := by simp only [parse, hs, hr]
  obtain ⟨h₁, h₂, h₃, h₄⟩ := dataTag_plain h.cutWithKf
  have hi : insertEmptyPieces (dataTag r).1 = ((dataTag r).1, []) := by
    unfold insertEmptyPieces
    rw [if_neg]
    rw [h₃, h.count]
    decide
  have hout : parse r = ⟨appendTagBody (countSeek (dataTag r).1), [], true⟩ := by
    rw [hp, flvDataTagbody, hi, h₁]
    rfl
  have hb : (parse r).reader.piece = r.piece ++ [(dataTag r).1.readingBuffer] := by rw [hout, ← h₂]; rfl
  have hkf : (parse r).reader.cutWithKf = false := by
    have := ho.plain
    rw [cuttings_data hs] at this
    exact Bool.not_eq_true' _ ▸ ((Bool.and_eq_true _ _).mp this).2
  refine h.plainStep hs (appended_other fun e => by cases hr.symm.trans e.1) ?_ hb ?_ hkf ?_ ?_
  · rw [hout]; rfl
  · rw [hout]; exact fun e => by cases e
  · rw [hout]; exact h₃
  · rw [hout]; exact h₄

/-! ## The header phase -/

/-- The tag that ended the header phase begins the first data piece, with its slot. -/
theorem dataCuts_headerOver (h : HeaderCuts r g) (hs : r.stat = .needHead) (hr : r.readingStat = .flvTagbody)
    (hov : r.isHeaderOver = true) (ho : Ordered r.cutScale (cuttings.parsed g r)) :
    DataCuts (parse r).reader (cuttings.parsed g r) := by
  obtain ⟨p, head, ts, hp, hcurrent, hstamps, hslot⟩ := h.ended hr hov
  have he : parse r = ⟨nextTag (postHeaderOver r), [.asyncWritePiece r.piece.dropLast 0 0], true⟩ := by
    have e : parse r = needHeadTagbody r := by simp only [parse, hs, hr]
    exact e.trans (if_pos hov)
  have hne : ¬ EndsHeader r := fun e => by cases hr.symm.trans e.1.2
  have hg : cuttings.parsed g r = ⟨[], [], [(head, ts)] ++ [appended r], ts.toList, none, !(parse r).reader.cutWithKf⟩ := by
    simp only [cuttings, hs, if_neg hne, if_pos (And.intro hr hov), hcurrent, hstamps]
  have hb : (parse r).reader.piece = [head] ++ [r.readingBuffer] := by
    rw [he]
    show r.piece.getLast?.toList ++ _ = _
    rw [hp, List.getLast?_concat]
    rfl
  have hx : (appended r).2 = none := appended_other fun e => by cases hr.symm.trans e.1
  have hx₁ : (appended r).1 = r.readingBuffer := appended_fst hb
  have hkf : (parse r).reader.cutWithKf = false := by
    have := ho.plain
    rw [hg] at this
    exact Bool.not_eq_true' _ ▸ this
  have hc : (parse r).reader.curPieceTs = r.curFlvTagTs := by rw [he]; rfl
  have hscale : (parse r).reader.cutScale = r.cutScale := cutScale_of_config (parse_config r)
  have hin : stampsIn ([(head, ts)] ++ [appended r]) = ts.toList := by
    rw [stampsIn_concat, hx, Option.toList_none, List.append_nil]
    exact stampsIn_concat [] (head, ts)
  rw [hg]
  refine ⟨?_, hkf, ?_, rfl, ?_, hin, ?_, fun t ht => ?_⟩
  · rw [he]
    exact fun e => by cases e
  · rw [he]
    exact h.count (by rw [hr]; decide)
  · rw [hb, List.map_append, List.map_singleton, List.map_singleton, hx₁]
  · rw [hin, hscale, hc]
    cases ts with
    | none => exact .of_nil rfl _
    | some t => exact (Grouped.of_nil rfl _).push (hslot t rfl)
  · rw [hscale, hc]
    cases ts with
    | none => cases ht
    | some t' => exact hslot t (by rwa [Option.toList_some, List.getLast?_singleton] at ht)

/-- The file header. -/
theorem HeaderCuts.fileheader (h : HeaderCuts r g) (hs : r.stat = .needHead) (hr : r.readingStat = .head) :
    Cuts (parse r).reader (cuttings.parsed g r) := by
  have hcount := parse_needHead_count hs h.count
  have e : parse r = needHeadHead r := by simp only [parse, hs, hr]
  have hst : (parse r).reader.stat = .needHead := by
    rw [e, needHeadHead]
    split <;> exact hs
  refine ⟨fun _ => ⟨fun hne => hcount.resolve_left hne, ?_, ?_⟩, fun e => by cases hst.symm.trans e⟩
  · rw [e, needHeadHead]
    split
    · exact fun _ => rfl
    · exact fun e => by cases hr.symm.trans e
  · rw [e, needHeadHead]
    split
    · exact fun e => by cases e
    · exact fun e => by cases hr.symm.trans e

/-- The tag header that ends the header phase waits for its body. -/
theorem HeaderCuts.endsHeader (h : HeaderCuts r g) (he : EndsHeader r) : Cuts (parse r).reader (cuttings.parsed g r) := by
  have hcount := parse_needHead_count he.1.1 h.count
  have hp := parse_endsHeader he
  have hst : (parse r).reader.stat = .needHead := by
    rw [hp]
    exact (Stamps.headerOver (beginTag r _) _).stat.trans he.1.1
  have hrs : (parse r).reader.readingStat = .flvTagbody := by rw [hp]; rfl
  have hg : cuttings.parsed g r = ⟨[], [], [appended r], (appended r).2.toList, none, !(parse r).reader.cutWithKf⟩ := by
    simp only [cuttings, he.1.1, if_pos he]
  refine ⟨fun _ => ⟨fun hne => hcount.resolve_left hne, (fun e => by cases hrs.symm.trans e), fun _ _ => ?_⟩,
    fun e => by cases hst.symm.trans e⟩
  obtain ⟨p, b, hb⟩ : ∃ p b, (parse r).reader.piece = p ++ [b] := ⟨_, _, by rw [hp]; rfl⟩
  refine ⟨p, b, (appended r).2, hb, ?_, by rw [hg], fun t ht => ?_⟩
  · rw [hg, ← appended_fst hb]
  · have ht : t = (parse r).reader.flvTagTimestamp := by
      rw [appended] at ht
      dsimp only at ht
      split at ht
      · exact (Option.mem_some_iff.mp ht).symm
      · cases ht
    rw [ht, hp]
    rfl

/-- A tag header that does not end it. -/
theorem HeaderCuts.taghead (h : HeaderCuts r g) (hs : r.stat = .needHead) (hr : r.readingStat = .flvTaghead)
    (he : ¬ EndsHeader r) : Cuts (parse r).reader (cuttings.parsed g r) := by
  have hcount := parse_needHead_count hs h.count
  have hp : parse r = ⟨pushTagHead (beginTag r (getTagTs r.readingBuffer)), [], true⟩ := by
    have e : parse r = needHeadTaghead r := by simp only [parse, hs, hr]
    exact e.trans (if_neg fun hc => he ⟨⟨hs, hr⟩, hc⟩)
  have hov : (parse r).reader.isHeaderOver = false := by
    rw [hp]
    exact h.notOver hr
  refine ⟨fun _ => ⟨fun hne => hcount.resolve_left hne, fun _ => hov, fun _ e => ?_⟩, fun e => ?_⟩
  · cases hov.symm.trans e
  · rw [hp] at e
    cases hs.symm.trans e

/-- A tag body with which the heads are complete, or are not yet. -/
theorem HeaderCuts.tagbody (h : HeaderCuts r g) (hs : r.stat = .needHead) (hr : r.readingStat = .flvTagbody)
    (hov : ¬ r.isHeaderOver = true) : Cuts (parse r).reader (cuttings.parsed g r) := by
  have hne : ¬ EndsHeader r := fun e => by cases hr.symm.trans e.1.2
  have hg : cuttings.parsed g r = ⟨[], [], [], [], none, !(parse r).reader.cutWithKf⟩ := by
    simp only [cuttings, hs, if_neg hne, if_neg fun e : _ ∧ _ => hov e.2]
  have hp : parse r = needHeadTagbody r := by simp only [parse, hs, hr]
  have hfr := headTag_frame r
  have hrs : (parse r).reader.readingStat = .flvTaghead := by
    rw [hp, needHeadTagbody, if_neg hov]
    dsimp only
    split <;> rfl
  have hc : (parse r).reader.shouldCutCount = 0 :=
    (parse_needHead_count hs h.count).resolve_left (by rw [hrs]; decide)
  refine ⟨fun _ => ⟨fun _ => hc, fun _ => ?_, fun e => by cases hrs.symm.trans e⟩, fun hs' ho => ?_⟩
  · rw [hp, needHeadTagbody, if_neg hov]
    dsimp only
    split <;> exact hfr.2.2.1.trans (Bool.eq_false_iff.mpr hov)
  · have hkf : (parse r).reader.cutWithKf = false := by
      have := ho.plain
      rw [hg] at this
      exact Bool.not_eq_true' _ ▸ this
    have hpiece : (parse r).reader.piece = [] := by
      rw [hp, needHeadTagbody, if_neg hov] at hs' ⊢
      dsimp only at hs' ⊢
      split at hs'
      · rw [if_pos ‹_›]
        rfl
      · cases (hfr.1.trans hs).symm.trans hs'
    rw [hg]
    refine ⟨?_, hkf, hc, rfl, hpiece, rfl, .of_nil rfl _, fun t ht => by cases ht⟩
    rw [hrs]
    decide

/-- A step of the header phase; it may be the last. -/
theorem HeaderCuts.parse (h : HeaderCuts r g) (hs : r.stat = .needHead) : Cuts (parse r).reader (cuttings.parsed g r) := by
  cases hr : r.readingStat with
  | head => exact h.fileheader hs hr
  | flvTaghead =>
    by_cases he : EndsHeader r
    · exact h.endsHeader he
    · exact h.taghead hs hr he
  | flvTagbody =>
    by_cases hov : r.isHeaderOver = true
    · have he : Impl.Cutter.parse r = ⟨nextTag (postHeaderOver r), [.asyncWritePiece r.piece.dropLast 0 0], true⟩ := by
        have e : Impl.Cutter.parse r = needHeadTagbody r := by simp only [Impl.Cutter.parse, hs, hr]
        exact e.trans (if_pos hov)
      have hscale : (Impl.Cutter.parse r).reader.cutScale = r.cutScale := cutScale_of_config (parse_config r)
      refine ⟨fun e => ?_, fun _ ho => dataCuts_headerOver h hs hr hov (hscale ▸ ho)⟩
      rw [he] at e
      cases e
    · exact h.tagbody hs hr hov

/-! ## Runs -/

theorem Cuts.parse (h : Cuts r g) : Cuts (parse r).reader (cuttings.parsed g r) := by
  cases hs : r.stat with
  | needHead => exact (h.header hs).parse hs
  | needFlvData =>
    have hscale : (Impl.Cutter.parse r).reader.cutScale = r.cutScale := cutScale_of_config (parse_config r)
    have hst : (Impl.Cutter.parse r).reader.stat = .needFlvData := by
      rcases parse_needFlvData hs with ⟨-, -, e⟩ | ⟨-, -, e⟩
      · exact e
      · exact e
    refine ⟨fun e => (by cases hst.symm.trans e), fun _ ho => ?_⟩
    rw [hscale] at ho
    have hd : DataCuts r g := h.data hs (ho.before hs)
    cases hr : r.readingStat with
    | head => exact absurd hr hd.parsing
    | flvTaghead =>
      by_cases hm : IsMedia r.readingBuffer
      · exact hd.mediaHead ⟨⟨hs, hr⟩, hm⟩ ho
      · exact hd.otherHead hs hr hm
    | flvTagbody => exact hd.tagbody hs hr ho

/-- The lasting state of the reader has all that counts. -/
theorem cuts_core : Cuts (core r) g ↔ Cuts r g := by
  constructor
  · intro h
    exact ⟨fun hs => ⟨(h.header hs).count, (h.header hs).notOver, (h.header hs).ended⟩, fun hs ho =>
      have hd := h.data hs ho
      ⟨hd.parsing, hd.cutWithKf, hd.count, hd.posted, hd.piece, hd.stamps, hd.grouped, hd.last⟩⟩
  · intro h
    exact ⟨fun hs => ⟨(h.header hs).count, (h.header hs).notOver, (h.header hs).ended⟩, fun hs ho =>
      have hd := h.data hs ho
      ⟨hd.parsing, hd.cutWithKf, hd.count, hd.posted, hd.piece, hd.stamps, hd.grouped, hd.last⟩⟩

theorem cuttings_keeps : cuttings.Keeps (fun _ _ => True) Cuts Cuts where
  lasts _ _ h := h
  begin _ _ _ := ⟨fun _ => ⟨fun h => absurd rfl h, (fun h => by cases h), fun h => by cases h⟩, fun h => by cases h⟩
  connect _ _ h := h
  stops _ _ h _ _ _ := cuts_core.mpr (cuts_core.mp h).parse
  parse _ _ h _ _ _ := cuts_core.mpr (cuts_core.mp h).parse

end

/-- With `cut_with_kf_` false, on every connection whose timestamps do not go back,
stay below `2^31` and begin at or behind the slot `cur_piece_ts_`: the pieces, the
one at hand with them, hold the audio and video tags in their order; two of these
lie in one piece if and only if their slots are equal, and the slots rise with the
pieces; a tag of another type goes to the piece at hand. -/
theorem plain_cutting (url : List Char) (kf modify : Bool) (scale mediaTs : Nat) {s : Noted Cutting}
    (h : Reach cuttings.step (fun _ _ => True) ⟨startReader url kf modify scale mediaTs, ⟨[], [], [], [], none, false⟩⟩ s)
    (hs : s.reader.stat = .needFlvData) (ho : Ordered s.reader.cutScale s.note) :
    (s.note.posted = s.note.closed.map (·.map Prod.fst) ∧ s.reader.piece = s.note.current.map Prod.fst ∧
      (s.note.closed ++ [s.note.current]).flatMap stampsIn = s.note.stamps) ∧
    (∀ {i j : Nat} {p q : List Labelled} {t u : Nat}, (s.note.closed ++ [s.note.current])[i]? = some p →
      (s.note.closed ++ [s.note.current])[j]? = some q → t ∈ stampsIn p → u ∈ stampsIn q →
      (i < j → t / s.reader.cutScale < u / s.reader.cutScale) ∧
      (t / s.reader.cutScale = u / s.reader.cutScale ↔ i = j)) ∧
    (s.reader.readingStat = .flvTaghead → ∀ head : Buffer, ¬ IsMedia head →
      (parse { s.reader with readingBuffer := head }).calls = [] ∧
      (parse { s.reader with readingBuffer := head }).reader.piece = s.reader.piece ++ [head]) := by
  have h₀ : Cuts (core (startReader url kf modify scale mediaTs)) ⟨[], [], [], [], none, false⟩ :=
    ⟨fun _ => ⟨fun h => absurd rfl h, (fun h => by cases h), fun h => by cases h⟩, fun h => by cases h⟩
  have hc := Notes.invariant cuttings_keeps h₀ rfl (fun e => by cases e) (h.mono fun _ _ _ _ _ => trivial)
  have hd : DataCuts s.reader s.note := (cuts_core.mp hc).data hs ho
  refine ⟨⟨hd.posted, hd.piece, ?_⟩, fun hi hj ht hu => ?_, fun hr head hm => ?_⟩
  · rw [← hd.stamps, List.flatMap_append, List.flatMap_singleton]
    rfl
  · refine hd.grouped.index ?_ ?_ ht hu
    · have := congrArg (Option.map stampsIn) hi
      rwa [← List.getElem?_map, List.map_append] at this
    · have := congrArg (Option.map stampsIn) hj
      rwa [← List.getElem?_map, List.map_append] at this
  · rw [parse_otherHead (r := { s.reader with readingBuffer := head }) hs hr hm]
    exact ⟨rfl, rfl⟩

/-- Both heads, then audio tags in two slots with a script tag between them. -/
def audioInTwoSlots : List Event :=
  connected ++ (requests [audio 1000, audio 1500, mkTag 18 0 [2] (by decide), audio 2100, audio 2200]).map .data

theorem plain_cutting_twoSlots :
    ∃ s, Reach cuttings.step (fun _ _ => True) ⟨startReader ['u'] false false 1 0, ⟨[], [], [], [], none, false⟩⟩ s ∧
      s.note.stamps = [1000, 1500, 2100, 2200] ∧ s.note.posted.map List.length = [0, 6] ∧
      s.note.posted = s.note.closed.map (·.map Prod.fst) ∧
      (s.note.closed ++ [s.note.current]).flatMap stampsIn = s.note.stamps := by
  have h : (runEvents cuttings.step ⟨startReader ['u'] false false 1 0, ⟨[], [], [], [], none, false⟩⟩ audioInTwoSlots).map
      (fun s => ((s.reader.stat, s.reader.cutScale, s.note.plain), s.note.stamps, s.note.start, s.note.posted.map List.length)) =
      some ((.needFlvData, 1000, true), [1000, 1500, 2100, 2200], some 0, [0, 6]) := by
    decide +kernel
  obtain ⟨s, hr, h⟩ := Option.map_eq_some_iff.mp h
  simp only [Prod.mk.injEq] at h
  obtain ⟨⟨h₁, h₂, h₃⟩, h₄, h₅, h₆⟩ := h
  have ho : Ordered s.reader.cutScale s.note := by
    refine ⟨h₃, ?_, ?_, ?_⟩
    · rw [h₄]; decide
    · rw [h₄]; decide
    · rw [h₂, h₄, h₅]; exact fun c hc => .inr fun t ht => by cases hc; cases ht; decide
  have hc := plain_cutting ['u'] false false 1 0 (.of_runIf hr) h₁ ho
  exact ⟨s, .of_runIf hr, h₄, h₆, hc.1.1, hc.1.2.2⟩

end XH.Proof.Cutter
