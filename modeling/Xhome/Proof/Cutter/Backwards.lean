import Xhome.Proof.Cutter.Delivery
import Xhome.Proof.Cutter.Reconnect
import Mathlib.Data.List.Chain

/-!
# Timestamps inside a connection

A tag that would get the last timestamp given again is raised by one, and the
next tag is compared with the raised timestamp only. So a tag that repeats the
source timestamp of a raised one falls behind it, and no other one does if the
source timestamps do not go back (`Close`). The timestamps in the posted pieces
are those left in the tags placed (`Laid`), which gives when they run backwards
(`timestamps_nondecreasing`).
-/

namespace XH.Proof.Cutter

open XH.Impl.Cutter

/-- The timestamp in the header of an audio or video tag. -/
def stampOf (head : Buffer) : List Nat := if IsMedia head then [getTagTs head] else []

/-- The timestamps in the audio and video tags of a piece of tags. -/
def mediaStamps : Piece → List Nat
  | head :: _ :: rest => stampOf head ++ mediaStamps rest
  | [head] => stampOf head
  | [] => []

/-- The timestamps in the pieces posted on a connection: the header piece begins
with the file header. -/
def postedStamps (posted : List Piece) : List Nat := mediaStamps (posted.headD []).tail ++ posted.tail.flatMap mediaStamps

/-- The tag comes with the timestamp of the one before it, which had been raised
already. -/
def Repeats (x y : Placed) : Prop := x.raised = true ∧ y.source = x.source

instance (x y : Placed) : Decidable (Repeats x y) := inferInstanceAs (Decidable (_ ∧ _))

/-- Neighbours whose source timestamps do not go back: the one left behind does
exactly after a repeated raise. -/
def Close (x y : Placed) : Prop := x.source ≤ y.source → (x.stamp ≤ y.stamp ↔ ¬ Repeats x y)

/-- Whole tags without a timestamp. -/
structure Zeros (p : Piece) : Prop where
  even : p.length % 2 = 0
  zero : ∀ x ∈ mediaStamps p, x = 0

/-- The timestamps in the pieces are those of the tags placed. -/
inductive Laid (r : Reader) (g : Stamping) : Prop
  | fileheader : r.stat = .needHead → r.readingStat = .head → r.piece = [] → g.posted = [] → g.tags = [] → Laid r g
  | headerHead {f : Buffer} {p : Piece} : r.stat = .needHead → r.readingStat = .flvTaghead → r.isHeaderOver = false →
    r.piece = f :: p → Zeros p → g.posted = [] → g.tags = [] → Laid r g
  | headerBody {f h : Buffer} {p : Piece} : r.stat = .needHead → r.readingStat = .flvTagbody → r.piece = f :: p ++ [h] →
    Zeros p → 8 ≤ h.length → r.curFlvTagType = tagType h → g.posted = [] →
    g.tags.map (·.stamp) = (if r.isHeaderOver then stampOf h else []) → Laid r g
  | dataHead {hp : Piece} {ps : List Piece} : r.stat = .needFlvData → r.readingStat = .flvTaghead → g.posted = hp :: ps →
    Zeros hp.tail → r.piece.length % 2 = 0 → ps.flatMap mediaStamps ++ mediaStamps r.piece = g.tags.map (·.stamp) → Laid r g
  | dataBody {hp p : Piece} {ps : List Piece} {h : Buffer} : r.stat = .needFlvData → r.readingStat = .flvTagbody →
    g.posted = hp :: ps → Zeros hp.tail → r.piece = p ++ [h] → p.length % 2 = 0 →
    ps.flatMap mediaStamps ++ (mediaStamps p ++ stampOf h) = g.tags.map (·.stamp) → Laid r g

/-- The posted timestamps come first among those of the tags placed, whose
neighbours are close. -/
structure Lasting (r : Reader) (g : Stamping) : Prop where
  modify : r.needModifyTs = true
  chain : g.tags.IsChain Close
  header : ∀ x ∈ mediaStamps (g.posted.headD []).tail, x = 0
  data : g.posted.tail.flatMap mediaStamps <+: g.tags.map (·.stamp)

/-- The tag placed last gave `flv_tag_timestamp_` its value. -/
def Linked (r : Reader) (g : Stamping) : Prop :=
  ∀ x ∈ g.tags.getLast?, r.gotFirstDataTag = true ∧ r.flvTagTimestamp = x.stamp ∧
    x.stamp = x.source + r.flvTagTsDelta + x.raised.toNat

/-- A connection being received. -/
structure Onward (r : Reader) (g : Stamping) : Prop where
  modify : r.needModifyTs = true
  unstamped : Unstamped r
  chain : g.tags.IsChain Close
  linked : Linked r g
  laid : Laid r g

/-! ## Pieces of tags -/

theorem mediaStamps_append {p : Piece} (q : Piece) (hp : p.length % 2 = 0) : mediaStamps (p ++ q) = mediaStamps p ++ mediaStamps q := by
  induction p using mediaStamps.induct with
  | case1 head body rest ih =>
    have hr : rest.length % 2 = 0 := by
      simp only [List.length_cons] at hp
      omega
    show stampOf head ++ mediaStamps (rest ++ q) = _
    rw [ih hr, ← List.append_assoc]
    rfl
  | case2 head => simp at hp
  | case3 => rfl

theorem flatMap_replicate_nil (n : Nat) : (List.replicate n []).flatMap mediaStamps = [] := by
  apply List.flatMap_eq_nil_iff.mpr
  intro p hp
  rw [List.eq_of_mem_replicate hp]
  rfl

theorem Zeros.nil : Zeros [] := ⟨rfl, fun x hx => by cases hx⟩

/-- The tags that stay in the header phase carry no timestamp. -/
theorem Zeros.kept {p : Piece} (h : Zeros p) {t : Buffer × Buffer} (hl : 8 ≤ t.1.length) : Zeros (p ++ pairs (keptTag t).toList) := by
  have hz : ∀ u, keptTag t = some u → ∀ x ∈ stampOf u.1, x = 0 := fun u hu x hx => by
    have hs : ∀ x ∈ stampOf (setTagTs t.1 0), x = 0 := fun x hx => by
      unfold stampOf at hx
      split at hx
      · rw [List.mem_singleton.mp hx]
        exact getTagTs_setTagTs hl (by decide)
      · cases hx
    unfold keptTag at hu
    split at hu
    · split at hu
      · cases hu; exact hs x hx
      · cases hu
    · split at hu
      · split at hu
        · cases hu; exact hs x hx
        · cases hu
      · cases hu
        rw [stampOf, if_neg fun hm => hm.elim ‹_› ‹_›] at hx
        cases hx
  cases hk : keptTag t with
  | none =>
    show Zeros (p ++ [])
    rw [List.append_nil]
    exact h
  | some u =>
    refine ⟨?_, fun x hx => ?_⟩
    · show (p ++ [u.1, u.2]).length % 2 = 0
      rw [List.length_append]
      have := h.even
      simp only [List.length_cons, List.length_nil]
      omega
    · have hx : x ∈ mediaStamps (p ++ [u.1, u.2]) := hx
      rw [mediaStamps_append _ h.even] at hx
      rcases List.mem_append.mp hx with hx | hx
      · exact h.zero x hx
      · have hx : x ∈ stampOf u.1 ++ [] := hx
        rw [List.append_nil] at hx
        exact hz u hk x hx

/-! ## The tags placed -/

section
variable {r : Reader} {g : Stamping}

theorem Restamped.isMedia {b c : Buffer} (h : Restamped b c) : IsMedia c ↔ IsMedia b := by
  rw [IsMedia, IsMedia, h.tagType]

/-- A tag placed leaves its timestamp in the header appended to the piece. -/
theorem placedTags_stampOf {p : Piece} {h : Buffer} (hp : (parse r).reader.piece = p ++ [h]) (hst : Restamped r.readingBuffer h)
    (hres : (parse r).resume = true) (hk : EndsHeader r ∨ r.stat = .needFlvData ∧ r.readingStat = .flvTaghead) :
    (placedTags r).map (·.stamp) = stampOf h := by
  have hleft : stampLeft (parse r).reader = getTagTs h := by
    rw [stampLeft, hp, List.getLast?_concat]
    rfl
  unfold placedTags stampOf
  by_cases hm : IsMedia r.readingBuffer
  · rw [if_pos (hst.isMedia.mpr hm)]
    by_cases he : EndsHeader r
    · rw [if_pos ⟨he, hm⟩, ← hleft]
      rfl
    · rw [if_neg fun hc => he hc.1, if_pos ⟨⟨hk.resolve_left he, hm⟩, hres⟩, ← hleft]
      rfl
  · rw [if_neg (mt hst.isMedia.mp hm), if_neg fun hc => hm hc.2, if_neg fun hc => hm hc.1.2]
    rfl

theorem gotFirstDataTag_headerOver (r : Reader) (ts : Nat) : (headerOver r ts).gotFirstDataTag = true := by
  unfold headerOver
  split
  · assumption
  · rfl

theorem mediaHead_gotFirstDataTag (h : MediaHead r) : (parse r).reader.gotFirstDataTag = true := by
  have hadv : (advanceSlot (placeTag r)).1.gotFirstDataTag = (placeTag r).gotFirstDataTag := by
    unfold advanceSlot
    split <;> rfl
  rw [parse_mediaHead h]
  rcases flvDataTaghead_media h.2 with e | e | e
  · rw [e]
    exact gotFirstDataTag_placeTag r
  · rw [e]
    exact hadv.trans (gotFirstDataTag_placeTag r)
  · rw [e]
    exact gotFirstDataTag_placeTag r

/-- The next tag behind the one placed last. -/
theorem close_of_linked {x : Placed} (hg : r.gotFirstDataTag = true) (ht : r.flvTagTimestamp = x.stamp)
    (hx : x.stamp = x.source + r.flvTagTsDelta + x.raised.toNat) : Close x ⟨sourceTs r, dataTs r, raises r⟩ := by
  intro hle
  have ho : offsetOf r = (r.flvTagTimestamp, r.flvTagTsDelta) := if_neg fun hc => by
    rw [hg] at hc
    cases hc.1
  have hd : dataTs r = sourceTs r + r.flvTagTsDelta + (sourceTs r + r.flvTagTsDelta == x.stamp).toNat := by
    rw [dataTs, raises, ho, ht]
  show x.stamp ≤ dataTs r ↔ ¬ (x.raised = true ∧ sourceTs r = x.source)
  rw [hd]
  cases hb : x.raised with
  | false =>
    rw [hb] at hx
    simp only [Bool.toNat_false] at hx
    simp only [Bool.false_eq_true, false_and, not_false_eq_true, iff_true]
    dsimp only at hle
    omega
  | true =>
    rw [hb] at hx
    simp only [Bool.toNat_true] at hx
    by_cases he : sourceTs r = x.source
    · have hn : ¬ sourceTs r + r.flvTagTsDelta = x.stamp := by omega
      simp only [he, true_and, not_true_eq_false, iff_false]
      rw [← he, beq_false_of_ne hn, Bool.toNat_false]
      omega
    · simp only [he, true_and, not_false_eq_true, iff_true]
      dsimp only at hle
      omega

/-- No tag is placed before the one that ends the header phase. -/
theorem Laid.tags_nil (h : Laid r g) (hs : r.stat = .needHead) (hr : r.readingStat ≠ .flvTagbody) : g.tags = [] := by
  cases h with
  | fileheader _ _ _ _ ht => exact ht
  | headerHead _ _ _ _ _ _ ht => exact ht
  | headerBody _ hr' => exact absurd hr' hr
  | dataHead hs' => cases hs.symm.trans hs'
  | dataBody hs' => cases hs.symm.trans hs'

/-- The neighbours are close behind a step, and the tag placed last gives
`flv_tag_timestamp_` its value. -/
def Chained (r : Reader) (g : Stamping) : Prop :=
  (g.tags ++ placedTags r).IsChain Close ∧ Linked (core (parse r).reader) (stampings.parsed g r)

/-- A step that places a tag. -/
theorem Onward.chained_one (h : Onward (core r) g) {y : Placed} (hy : placedTags r = [y])
    (hc : ∀ x ∈ g.tags.getLast?, Close x y) (hg : (parse r).reader.gotFirstDataTag = true)
    (ht : (parse r).reader.flvTagTimestamp = y.stamp)
    (hs : y.stamp = y.source + (parse r).reader.flvTagTsDelta + y.raised.toNat) : Chained r g := by
  refine ⟨?_, fun x hx => ?_⟩
  · rw [hy]
    refine List.isChain_append.mpr ⟨h.chain, List.isChain_singleton _, fun x hx z hz => ?_⟩
    cases hz
    exact hc x hx
  · have hx : x ∈ (g.tags ++ placedTags r).getLast? := hx
    rw [hy, List.getLast?_concat] at hx
    cases hx
    exact ⟨hg, ht, hs⟩

/-- A step that places none and stamps nothing. -/
theorem Onward.chained_none (h : Onward (core r) g) (hp : placedTags r = []) (hm : memory (parse r).reader = memory r) :
    Chained r g := by
  refine ⟨by rw [hp, List.append_nil]; exact h.chain, fun x hx => ?_⟩
  have hx : x ∈ (g.tags ++ placedTags r).getLast? := hx
  rw [hp, List.append_nil] at hx
  obtain ⟨h₁, h₂, h₃⟩ := h.linked x hx
  have e₁ : (parse r).reader.flvTagTimestamp = r.flvTagTimestamp := congrArg (·.1) hm
  have e₂ : (parse r).reader.flvTagTsDelta = r.flvTagTsDelta := congrArg (·.2.1) hm
  have e₃ : (parse r).reader.gotFirstDataTag = r.gotFirstDataTag := congrArg (·.2.2) hm
  refine ⟨e₃.trans h₁, e₁.trans h₂, ?_⟩
  show x.stamp = x.source + (parse r).reader.flvTagTsDelta + x.raised.toNat
  rw [e₂]
  exact h₃

/-- A step before the first tag. -/
theorem chained_nil (ht : g.tags = []) (hp : placedTags r = []) : Chained r g := by
  have hg : g.tags ++ placedTags r = [] := by rw [hp, ht]; rfl
  refine ⟨by rw [hg]; exact List.isChain_nil, fun x hx => ?_⟩
  have hx : x ∈ (g.tags ++ placedTags r).getLast? := hx
  rw [hg] at hx
  cases hx

theorem Onward.tags (h : Onward (core r) g) (hz : Sized r) (hw : NoWrap r) (hres : (parse r).resume = true) :
    Chained r g := by
  by_cases he : EndsHeader r
  · have hnil : g.tags = [] := h.laid.tags_nil he.1.1 (show r.readingStat ≠ _ by rw [he.1.2]; decide)
    by_cases hm : IsMedia r.readingBuffer
    · obtain ⟨hg, hd⟩ := h.unstamped.head he.1.1 he.1.2
      obtain ⟨h₁, h₂, h₃⟩ := endsHeader_noWrap he hw hz h.modify hg hd
      have hgot : (parse r).reader.gotFirstDataTag = true := by
        rw [parse_endsHeader he]
        exact gotFirstDataTag_headerOver _ _
      have hle : sourceTs r ≤ headTs r := by
        unfold headTs
        split <;> omega
      refine h.chained_one (y := ⟨sourceTs r, headTs r, false⟩) ?_ (fun x hx => by rw [hnil] at hx; cases hx) hgot h₁ ?_
      · rw [placedTags, if_pos ⟨he, hm⟩, h₃]
      · show headTs r = sourceTs r + (parse r).reader.flvTagTsDelta + 0
        rw [h₂]
        omega
    · apply chained_nil hnil
      rw [placedTags, if_neg fun hc => hm hc.2, if_neg fun hc => hm hc.1.2]
  · by_cases hm : MediaHead r
    · obtain ⟨h₁, h₂, h₃⟩ := mediaHead_noWrap hm hw hz h.modify
      refine h.chained_one (y := ⟨sourceTs r, dataTs r, raises r⟩) ?_ (fun x hx => ?_) (mediaHead_gotFirstDataTag hm) h₁ ?_
      · rw [placedTags, if_neg fun hc => he hc.1, if_pos ⟨hm, hres⟩, h₃ hres]
      · obtain ⟨hg, ht, hs⟩ := h.linked x hx
        exact close_of_linked hg ht hs
      · rw [h₂]
        rfl
    · have hp := placedTags_nil he hm
      by_cases hr : r.readingStat = .head
      · have hs : r.stat = .needHead := by
          cases hs : r.stat with
          | needHead => rfl
          | needFlvData => exact absurd hr (h.unstamped.parsing hs)
        exact chained_nil (h.laid.tags_nil hs (show r.readingStat ≠ _ by rw [hr]; decide)) hp
      · exact h.chained_none hp (parse_memory hr he hm)

/-! ## The pieces -/

theorem laid_fileheader (hs : r.stat = .needHead) (hr : r.readingStat = .head) (hp : r.piece = []) (hg : g.posted = [])
    (ht : g.tags = []) (hres : (parse r).resume = true) : Laid (core (parse r).reader) (stampings.parsed g r) := by
  have e : parse r = needHeadHead r := by simp only [parse, hs, hr]
  have hn : placedTags r = [] := placedTags_of_ne (by rw [hr]; decide)
  have htags : (stampings.parsed g r).tags = [] := show g.tags ++ placedTags r = [] by rw [ht, hn]; rfl
  have hposted : (stampings.parsed g r).posted = g.posted ++ pieces (parse r).calls := rfl
  rw [e, needHeadHead] at hres hposted ⊢
  split at hres
  · rename_i hf
    rw [if_pos hf, hg] at hposted
    rw [if_pos hf]
    refine .headerHead (f := r.readingBuffer) (p := []) hs rfl rfl ?_ .nil hposted htags
    show r.piece ++ [r.readingBuffer] = _
    rw [hp]
    rfl
  · cases hres

/-- A tag header is appended in the header phase. -/
theorem laid_pushTagHead {u : Reader} {f : Buffer} {p : Piece} (hs : r.stat = .needHead) (hr : r.readingStat = .flvTaghead)
    (hp : r.piece = f :: p) (hz : Zeros p) (hg : g.posted = []) (ht : g.tags = []) (hsz : Sized r)
    (e : parse r = ⟨pushTagHead u, [], true⟩) (hst : Stamps (beginTag r (sourceTs r)) u)
    (hu : (placedTags r).map (·.stamp) = (if u.isHeaderOver then stampOf u.readingBuffer else [])) :
    Laid (core (parse r).reader) (stampings.parsed g r) := by
  have hb : Restamped r.readingBuffer u.readingBuffer := hst.readingBuffer
  have hposted : (stampings.parsed g r).posted = [] := show g.posted ++ pieces (parse r).calls = [] by rw [e, hg]; rfl
  have htags : (stampings.parsed g r).tags = placedTags r := show g.tags ++ placedTags r = _ by rw [ht]; rfl
  refine .headerBody (f := f) (p := p) (h := u.readingBuffer) ?_ ?_ ?_ hz ?_ ?_ hposted ?_
  · rw [e]
    exact hst.stat.trans hs
  · rw [e]
    rfl
  · rw [e]
    show u.piece ++ [u.readingBuffer] = _
    rw [hst.piece]
    show r.piece ++ [u.readingBuffer] = _
    rw [hp]
  · rw [hb.length, hsz hr]
    decide
  · rw [e]
    exact hst.curFlvTagType.trans hb.tagType.symm
  · rw [htags, e]
    exact hu

theorem laid_headerHead {f : Buffer} {p : Piece} (hs : r.stat = .needHead) (hr : r.readingStat = .flvTaghead)
    (ho : r.isHeaderOver = false) (hp : r.piece = f :: p) (hz : Zeros p) (hg : g.posted = []) (ht : g.tags = []) (hsz : Sized r) :
    Laid (core (parse r).reader) (stampings.parsed g r) := by
  by_cases he : EndsHeader r
  · have e := parse_endsHeader he
    have hst := Stamps.headerOver (beginTag r (sourceTs r)) (sourceTs r)
    apply laid_pushTagHead hs hr hp hz hg ht hsz e hst
    show _ = stampOf _
    refine placedTags_stampOf (p := f :: p) ?_ hst.readingBuffer (by rw [e]) (.inl he)
    rw [e]
    show (headerOver (beginTag r (sourceTs r)) (sourceTs r)).piece ++ _ = _
    rw [hst.piece]
    show r.piece ++ _ = _
    rw [hp]
  · have e : parse r = needHeadTaghead r := by simp only [parse, hs, hr]
    have e' : needHeadTaghead r = ⟨pushTagHead (beginTag r (sourceTs r)), [], true⟩ := if_neg fun hc => he ⟨⟨hs, hr⟩, hc⟩
    have hn : placedTags r = [] := placedTags_nil he fun h => by cases hs.symm.trans h.1.1
    apply laid_pushTagHead hs hr hp hz hg ht hsz (e.trans e') (.refl _)
    rw [hn]
    show [] = if r.isHeaderOver then _ else _
    rw [ho]
    rfl

theorem laid_headerBody {f h : Buffer} {p : Piece} (hs : r.stat = .needHead) (hr : r.readingStat = .flvTagbody)
    (hp : r.piece = f :: p ++ [h]) (hz : Zeros p) (hl : 8 ≤ h.length) (hty : r.curFlvTagType = tagType h) (hg : g.posted = [])
    (ht : g.tags.map (·.stamp) = (if r.isHeaderOver then stampOf h else [])) :
    Laid (core (parse r).reader) (stampings.parsed g r) := by
  have e : parse r = needHeadTagbody r := by simp only [parse, hs, hr]
  have hn : placedTags r = [] := placedTags_of_ne (by rw [hr]; decide)
  have htags : (stampings.parsed g r).tags = g.tags := show g.tags ++ placedTags r = _ by rw [hn, List.append_nil]
  have hposted : (stampings.parsed g r).posted = pieces (parse r).calls := show g.posted ++ _ = _ by rw [hg]; rfl
  cases ho : r.isHeaderOver with
  | true =>
    have e : parse r = ⟨nextTag (postHeaderOver r), [.asyncWritePiece r.piece.dropLast 0 0], true⟩ := e.trans (if_pos ho)
    have hpiece : (nextTag (postHeaderOver r)).piece = [h, r.readingBuffer] :=
      show r.piece.getLast?.toList ++ [r.readingBuffer] = _ by rw [hp, List.getLast?_concat]; rfl
    rw [ho] at ht
    rw [e] at hposted ⊢
    refine @Laid.dataHead _ _ (f :: p) [] rfl rfl ?_ hz ?_ ?_
    · rw [hposted, hp, List.dropLast_concat]
      rfl
    · show (nextTag (postHeaderOver r)).piece.length % 2 = 0
      rw [hpiece]
      exact Nat.mod_self 2
    · rw [htags, ht]
      show mediaStamps (nextTag (postHeaderOver r)).piece = stampOf h
      rw [hpiece]
      exact List.append_nil _
  | false =>
    rw [ho] at ht
    have ht : g.tags = [] := List.map_eq_nil_iff.mp ht
    have ho' : ¬ r.isHeaderOver = true := by rw [ho]; decide
    obtain ⟨hpiece, -⟩ := headTag_piece hp hty
    have hz' : Zeros (p ++ pairs (keptTag (h, r.readingBuffer)).toList) := hz.kept hl
    rw [e, needHeadTagbody, if_neg ho'] at hposted ⊢
    dsimp only at hposted ⊢
    split at hposted
    · rename_i hc
      rw [if_pos hc]
      refine @Laid.dataHead _ _ (f :: (p ++ pairs (keptTag (h, r.readingBuffer)).toList)) [] rfl rfl ?_ hz' rfl ?_
      · rw [hposted]
        show [(keepTag (headTag r).1 (headTag r).2).piece] = _
        rw [hpiece]
        rfl
      · rw [htags, ht]
        rfl
    · rename_i hc
      rw [if_neg hc]
      refine .headerHead (f := f) ((headTag_frame r).1.trans hs) rfl ((headTag_frame r).2.2.1.trans ho) hpiece hz' hposted ?_
      rw [htags, ht]

/-- A tag header is appended in the data phase, to the piece at hand or to a new
one after that piece has been posted. -/
theorem laid_appendTagHead {t : Reader} {cs : List Call} {hp : Piece} {ps : List Piece} (hs : r.stat = .needFlvData)
    (hr : r.readingStat = .flvTaghead) (hg : g.posted = hp :: ps) (hz : Zeros hp.tail) (hev : r.piece.length % 2 = 0)
    (ht : ps.flatMap mediaStamps ++ mediaStamps r.piece = g.tags.map (·.stamp)) (e : parse r = ⟨appendTagHead t, cs, true⟩)
    (hst : Restamped r.readingBuffer t.readingBuffer) (hts : t.stat = r.stat)
    (hc : t.piece = r.piece ∧ pieces cs = [] ∨ t.piece = [] ∧ pieces cs = [r.piece]) :
    Laid (core (parse r).reader) (stampings.parsed g r) := by
  have hposted : (stampings.parsed g r).posted = hp :: (ps ++ pieces cs) := by
    show g.posted ++ pieces (parse r).calls = _
    rw [hg, e]
    rfl
  have hpiece : (parse r).reader.piece = t.piece ++ [t.readingBuffer] := by rw [e]; rfl
  have hres : (parse r).resume = true := by rw [e]
  have htags : (stampings.parsed g r).tags.map (·.stamp) = g.tags.map (·.stamp) ++ stampOf t.readingBuffer := by
    show (g.tags ++ placedTags r).map (·.stamp) = _
    rw [List.map_append, placedTags_stampOf hpiece hst hres (.inr ⟨hs, hr⟩)]
  have hstat : (parse r).reader.stat = .needFlvData := by rw [e]; exact hts.trans hs
  have hrs : (parse r).reader.readingStat = .flvTagbody := by rw [e]; rfl
  refine .dataBody (p := t.piece) (h := t.readingBuffer) hstat hrs hposted hz hpiece ?_ ?_
  · rcases hc with ⟨hp', -⟩ | ⟨hp', -⟩
    · rw [hp']
      exact hev
    · rw [hp']
      rfl
  · rw [htags, ← ht, List.flatMap_append]
    rcases hc with ⟨hp', hcs⟩ | ⟨hp', hcs⟩
    · rw [hp', hcs]
      simp
    · rw [hp', hcs]
      simp [mediaStamps]

theorem laid_dataHead {hp : Piece} {ps : List Piece} (hs : r.stat = .needFlvData) (hr : r.readingStat = .flvTaghead)
    (hg : g.posted = hp :: ps) (hz : Zeros hp.tail) (hev : r.piece.length % 2 = 0)
    (ht : ps.flatMap mediaStamps ++ mediaStamps r.piece = g.tags.map (·.stamp)) (hres : (parse r).resume = true) :
    Laid (core (parse r).reader) (stampings.parsed g r) := by
  have e : parse r = flvDataTaghead r := by simp only [parse, hs, hr]
  obtain ⟨t, hst, -, e' | ⟨-, e'⟩⟩ := flvDataTaghead_cases (e ▸ hres)
  · exact laid_appendTagHead hs hr hg hz hev ht (e.trans e') hst.readingBuffer hst.stat (.inl ⟨hst.piece, rfl⟩)
  · obtain ⟨hfb, -, hfs, -⟩ := advanceSlot_frame t
    apply laid_appendTagHead hs hr hg hz hev ht (e.trans e') (hfb ▸ hst.readingBuffer) (hfs.trans hst.stat)
    rcases advanceSlot_cases t with ⟨-, hc, hp'⟩ | ⟨-, hc, hp'⟩
    · rw [hc]
      exact .inl ⟨hp'.trans hst.piece, rfl⟩
    · rw [hc, hst.piece]
      exact .inr ⟨hp', rfl⟩

theorem laid_dataBody {hp p : Piece} {ps : List Piece} {h : Buffer} (hs : r.stat = .needFlvData)
    (hr : r.readingStat = .flvTagbody) (hg : g.posted = hp :: ps) (hz : Zeros hp.tail) (hpc : r.piece = p ++ [h])
    (hev : p.length % 2 = 0) (ht : ps.flatMap mediaStamps ++ (mediaStamps p ++ stampOf h) = g.tags.map (·.stamp)) :
    Laid (core (parse r).reader) (stampings.parsed g r) := by
  have e : parse r = flvDataTagbody r := by simp only [parse, hs, hr]
  have hn : placedTags r = [] := placedTags_of_ne (by rw [hr]; decide)
  have htags : (stampings.parsed g r).tags = g.tags := show g.tags ++ placedTags r = _ by rw [hn, List.append_nil]
  have hposted : (stampings.parsed g r).posted = hp :: (ps ++ pieces (flvDataTagbody r).calls) := by
    show g.posted ++ pieces (parse r).calls = _
    rw [hg, e]
    rfl
  have hstat : (parse r).reader.stat = .needFlvData := by rw [e]; exact (flvDataTagbody_stat r).trans hs
  have hrs : (parse r).reader.readingStat = .flvTaghead := by rw [e]; rfl
  refine .dataHead hstat hrs hposted hz ?_ ?_
  · show (parse r).reader.piece.length % 2 = 0
    rw [e]
    obtain ⟨k, ⟨-, hp'⟩ | ⟨-, -, hp'⟩⟩ := flvDataTagbody_pieces hpc
    · rw [hp', List.length_append]
      show (p.length + 2) % 2 = 0
      omega
    · rw [hp']
      exact Nat.mod_self 2
  · show _ ++ mediaStamps (parse r).reader.piece = _
    rw [htags, ← ht, e, List.flatMap_append]
    obtain ⟨k, ⟨hc, hp'⟩ | ⟨-, hc, hp'⟩⟩ := flvDataTagbody_pieces hpc
    · rw [hc, hp', flatMap_replicate_nil, List.append_nil, mediaStamps_append _ hev]
      simp [mediaStamps]
    · rw [hc, hp', List.flatMap_cons, flatMap_replicate_nil]
      simp [mediaStamps]

theorem Laid.parse (h : Laid (core r) g) (hz : Sized r) (hres : (parse r).resume = true) :
    Laid (core (parse r).reader) (stampings.parsed g r) := by
  cases h with
  | fileheader hs hr hp hg ht => exact laid_fileheader hs hr hp hg ht hres
  | headerHead hs hr ho hp hzero hg ht => exact laid_headerHead hs hr ho hp hzero hg ht hz
  | headerBody hs hr hp hzero hl hty hg ht => exact laid_headerBody hs hr hp hzero hl hty hg ht
  | dataHead hs hr hg hzero hev ht => exact laid_dataHead hs hr hg hzero hev ht hres
  | dataBody hs hr hg hzero hp hev ht => exact laid_dataBody hs hr hg hzero hp hev ht

theorem Laid.header_zero (h : Laid r g) : ∀ x ∈ mediaStamps (g.posted.headD []).tail, x = 0 := by
  have hnil : ∀ x ∈ mediaStamps (([] : List Piece).headD []).tail, x = 0 := fun x hx => by cases hx
  cases h with
  | fileheader _ _ _ hg => rw [hg]; exact hnil
  | headerHead _ _ _ _ _ hg => rw [hg]; exact hnil
  | headerBody _ _ _ _ _ _ hg => rw [hg]; exact hnil
  | dataHead _ _ hg hz => rw [hg]; exact hz.zero
  | dataBody _ _ hg hz => rw [hg]; exact hz.zero

theorem Laid.data_le (h : Laid r g) : g.posted.tail.flatMap mediaStamps <+: g.tags.map (·.stamp) := by
  have hnil : ([] : List Piece).tail.flatMap mediaStamps <+: g.tags.map (·.stamp) := List.nil_prefix
  cases h with
  | fileheader _ _ _ hg => rw [hg]; exact hnil
  | headerHead _ _ _ _ _ hg => rw [hg]; exact hnil
  | headerBody _ _ _ _ _ _ hg => rw [hg]; exact hnil
  | dataHead _ _ hg _ _ ht => rw [hg, ← ht]; exact List.prefix_append _ _
  | dataBody _ _ hg _ _ _ ht => rw [hg, ← ht]; exact List.prefix_append _ _

/-! ## Runs -/

/-- A restart of the parser places and posts nothing. -/
theorem parsed_restart (hres : (parse r).resume = false) : stampings.parsed g r = g := by
  have he : ¬ EndsHeader r := fun he => by
    rw [parse_endsHeader he] at hres
    cases hres
  have hn : placedTags r = [] := by
    rw [placedTags, if_neg fun hc => he hc.1, if_neg fun hc => by cases hres.symm.trans hc.2]
  have hc : pieces (parse r).calls = [] := by
    cases hs : r.stat with
    | needHead =>
      rcases parse_needHead hs with ⟨h, -⟩ | ⟨h, -⟩ | ⟨-, hc, -⟩
      · cases hres.symm.trans h
      · cases hres.symm.trans h
      · rw [hc]; rfl
    | needFlvData =>
      rcases parse_needFlvData hs with ⟨h, -⟩ | ⟨-, hc, -⟩
      · cases hres.symm.trans h
      · rw [hc]; rfl
  show (⟨g.earlier, g.tags ++ placedTags r, g.posted ++ pieces (parse r).calls⟩ : Stamping) = g
  rw [hn, hc, List.append_nil, List.append_nil]

theorem Onward.lasting (h : Onward r g) : Lasting r g := ⟨h.modify, h.chain, h.laid.header_zero, h.laid.data_le⟩

theorem stampings_onward : stampings.Keeps (fun _ r => NoWrap r) Onward Lasting where
  lasts _ _ h := h.lasting
  begin _ _ h := ⟨h.modify, h.chain, h.header, h.data⟩
  connect _ _ h := by
    refine ⟨h.modify, ⟨?_, ?_, ?_⟩, List.isChain_nil, (fun x hx => by cases hx), .fileheader rfl rfl rfl rfl rfl⟩
    · exact fun e => by cases e
    · exact fun _ e => by cases e
    · exact fun _ e => by cases e
  stops r g h _ _ hres := by
    have hl := h.lasting
    have hp : Parsing r := h.unstamped.parsing
    rw [parsed_restart hres]
    exact ⟨(parse_needModifyTs _).trans hl.modify, hl.chain, hl.header, hl.data⟩
  parse r g h hz hw hres := by
    obtain ⟨hc, hl⟩ := h.tags hz hw hres
    have hp : Parsing r := h.unstamped.parsing
    exact ⟨(parse_needModifyTs _).trans h.modify, h.unstamped.parse hres, hc, hl, h.laid.parse hz hres⟩

end

/-- Close neighbours whose source timestamps do not go back. -/
theorem isChain_stamp_iff {l : List Placed} (hc : l.IsChain Close) (hs : l.IsChain (·.source ≤ ·.source)) :
    l.IsChain (·.stamp ≤ ·.stamp) ↔ l.IsChain (¬ Repeats · ·) := by
  simp only [List.isChain_iff_getElem] at hc hs ⊢
  exact forall₂_congr fun i hi => hc i hi (hs i hi)

/-- In every run in which nothing wraps, on a connection whose audio and video
data tags come with non-decreasing timestamps, the timestamps left in the posted
pieces are non-decreasing exactly if no tag posted repeats the timestamp of the
one before it that had been raised already. -/
theorem timestamps_nondecreasing (url : List Char) (kf : Bool) (scale mediaTs : Nat) {s : Noted Stamping}
    (h : Reach stampings.step (Notes.Meets fun _ r => NoWrap r) ⟨startReader url kf true scale mediaTs, ⟨[], [], []⟩⟩ s)
    (hs : (s.note.tags.map (·.source)).Pairwise (· ≤ ·)) :
    (postedStamps s.note.posted).Pairwise (· ≤ ·) ↔
      (s.note.tags.take (s.note.posted.tail.flatMap mediaStamps).length).IsChain (¬ Repeats · ·) := by
  have h₀ : Lasting (core (startReader url kf true scale mediaTs)) ⟨[], [], []⟩ :=
    ⟨rfl, List.isChain_nil, (fun x hx => by cases hx), List.nil_prefix⟩
  have hl := Notes.invariant stampings_onward h₀ rfl (fun e => by cases e) h
  -- the header piece has no timestamps, and the data pieces have the first ones of the tags placed
  have hzero : (mediaStamps (s.note.posted.headD []).tail).Pairwise (· ≤ ·) :=
    List.pairwise_of_forall_mem_list fun x hx y _ => by
      rw [hl.header x hx]
      exact Nat.zero_le y
  have hdata := List.prefix_iff_eq_take.mp hl.data
  have hsource : s.note.tags.IsChain (·.source ≤ ·.source) := (List.isChain_map Placed.source).mp hs.isChain
  have hstamps : (s.note.posted.tail.flatMap mediaStamps).Pairwise (· ≤ ·) ↔
      (s.note.tags.take (s.note.posted.tail.flatMap mediaStamps).length).IsChain (¬ Repeats · ·) := by
    rw [← isChain_stamp_iff (hl.chain.take _) (hsource.take _), ← List.isChain_iff_pairwise]
    nth_rewrite 1 [hdata]
    rw [← List.map_take, List.isChain_map]
  rw [← hstamps, postedStamps, List.pairwise_append]
  refine ⟨fun hp => hp.2.1, fun hp => ⟨hzero, hp, fun x hx y _ => ?_⟩⟩
  rw [hl.header x hx]
  exact Nat.zero_le y

/-- Video tags of one second, and one of the next that posts their piece. -/
def second (times : List Nat) : List Event := connected ++ times.flatMap videoAt ++ videoAt 2500

theorem timestamps_nondecreasing_twoTags :
    ∃ s, Reach stampings.step (Notes.Meets fun _ r => NoWrap r) ⟨startReader ['u'] false true 1 0, ⟨[], [], []⟩⟩ s ∧
      s.note.tags.map (·.source) = [1000, 1000, 2500] ∧ postedStamps s.note.posted = [0, 0, 1000, 1001] ∧
      (postedStamps s.note.posted).Pairwise (· ≤ ·) := by
  have h : (runIf stampings.step (Notes.Meets fun _ r => NoWrap r) ⟨startReader ['u'] false true 1 0, ⟨[], [], []⟩⟩
      (second [1000, 1000])).map (fun s => (s.note.tags, postedStamps s.note.posted, (s.note.posted.tail.flatMap mediaStamps).length)) =
      some ([⟨1000, 1000, false⟩, ⟨1000, 1001, true⟩, ⟨2500, 2500, false⟩], [0, 0, 1000, 1001], 2) := by
    decide +kernel
  obtain ⟨s, hr, h⟩ := Option.map_eq_some_iff.mp h
  have ht : s.note.tags = [⟨1000, 1000, false⟩, ⟨1000, 1001, true⟩, ⟨2500, 2500, false⟩] := congrArg (·.1) h
  have hp : postedStamps s.note.posted = [0, 0, 1000, 1001] := congrArg (·.2.1) h
  have hn : (s.note.posted.tail.flatMap mediaStamps).length = 2 := congrArg (·.2.2) h
  have hs : s.note.tags.map (·.source) = [1000, 1000, 2500] := by rw [ht]; rfl
  refine ⟨s, .of_runIf hr, hs, hp, (timestamps_nondecreasing ['u'] false 1 0 (.of_runIf hr) ?_).mpr ?_⟩
  · rw [hs]
    decide
  · rw [hn, ht]
    decide

/-- The third of three equal timestamps is left behind the second. -/
theorem timestamps_run_backwards :
    ∃ s, Reach stampings.step (Notes.Meets fun _ r => NoWrap r) ⟨startReader ['u'] false true 1 0, ⟨[], [], []⟩⟩ s ∧
      (s.note.tags.map (·.source)).Pairwise (· ≤ ·) ∧ postedStamps s.note.posted = [0, 0, 1000, 1001, 1000] ∧
      ¬ (postedStamps s.note.posted).Pairwise (· ≤ ·) := by
  have h : (runIf stampings.step (Notes.Meets fun _ r => NoWrap r) ⟨startReader ['u'] false true 1 0, ⟨[], [], []⟩⟩
      (second [1000, 1000, 1000])).map (fun s => (s.note.tags.map (·.source), postedStamps s.note.posted)) =
      some ([1000, 1000, 1000, 2500], [0, 0, 1000, 1001, 1000]) := by
    decide +kernel
  obtain ⟨s, hr, h⟩ := Option.map_eq_some_iff.mp h
  have hs : s.note.tags.map (·.source) = [1000, 1000, 1000, 2500] := congrArg (·.1) h
  have hp : postedStamps s.note.posted = [0, 0, 1000, 1001, 1000] := congrArg (·.2) h
  refine ⟨s, .of_runIf hr, ?_, hp, ?_⟩
  · rw [hs]
    decide
  · rw [hp]
    decide

end XH.Proof.Cutter
