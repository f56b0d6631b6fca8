import Xhome.Proof.Cutter.Restamp

/-!
# Timestamps across connections

`flv_tag_timestamp_` holds the timestamp of the audio or video tag last examined,
and the first data tag of a new connection is put behind it. So it is put behind
all tags placed before, in runs in which no tag is given a timestamp behind
`flv_tag_timestamp_` (`timeline_continues`): the variable is then the largest
timestamp of all. It is not after a tag that goes back, such as the one at which
the reader restarts (`timeline_repeats`).
-/

namespace XH.Proof.Cutter

open XH.Impl.Cutter

/-- The tag header in the buffer does not go back: it is given no timestamp
behind `flv_tag_timestamp_`, and if it ends the header phase it does not carry
that very timestamp. -/
def Forward (r : Reader) : Prop :=
  (EndsHeader r → IsMedia r.readingBuffer → sourceTs r ≠ r.flvTagTimestamp) ∧
  (MediaHead r → (offsetOf r).1 ≤ sourceTs r + (offsetOf r).2)

instance (r : Reader) : Decidable (Forward r) := inferInstanceAs (Decidable (_ ∧ _))

/-- `flv_tag_timestamp_` is the largest timestamp left in a piece, and the first
tag of the connection is behind those of the earlier ones. -/
structure Latest (r : Reader) (g : Stamping) : Prop where
  modify : r.needModifyTs = true
  earlier : ∀ x ∈ g.earlier, x ≤ r.flvTagTimestamp
  tags : ∀ t ∈ g.tags, t.stamp ≤ r.flvTagTimestamp
  first : ∀ t ∈ g.tags.head?, ∀ x ∈ g.earlier, x < t.stamp

section
variable {r : Reader} {g : Stamping}

/-- The last timestamp grows, and tags behind the old one are placed. -/
theorem Latest.grow (h : Latest r g) {r' : Reader} {new : List Placed} (ps : List Piece)
    (hm : r'.needModifyTs = r.needModifyTs) (hle : r.flvTagTimestamp ≤ r'.flvTagTimestamp)
    (hnew : ∀ t ∈ new, r.flvTagTimestamp < t.stamp ∧ t.stamp ≤ r'.flvTagTimestamp) :
    Latest r' ⟨g.earlier, g.tags ++ new, ps⟩ := by
  refine ⟨hm.trans h.modify, fun x hx => (h.earlier x hx).trans hle, fun t ht => ?_, fun t ht x hx => ?_⟩
  · rcases List.mem_append.mp ht with ht | ht
    · exact (h.tags t ht).trans hle
    · exact (hnew t ht).2
  · cases htags : g.tags with
    | nil =>
      have ht : (g.tags ++ new).head? = some t := ht
      rw [htags, List.nil_append] at ht
      exact Nat.lt_of_le_of_lt (h.earlier x hx) (hnew t (List.mem_of_head? ht)).1
    | cons a l =>
      have ht : (g.tags ++ new).head? = some t := ht
      rw [htags, List.cons_append, List.head?_cons] at ht
      refine h.first t ?_ x hx
      rw [htags, List.head?_cons]
      exact ht

theorem lt_headTs (hs : sourceTs r ≠ r.flvTagTimestamp) : r.flvTagTimestamp < headTs r := by
  unfold headTs
  split <;> omega

theorem le_headTs : r.flvTagTimestamp ≤ headTs r := by
  unfold headTs
  split <;> omega

theorem lt_dataTs (h : (offsetOf r).1 ≤ sourceTs r + (offsetOf r).2) : r.flvTagTimestamp < dataTs r := by
  have ho : r.flvTagTimestamp ≤ (offsetOf r).1 := by
    unfold offsetOf
    split
    · exact Nat.le_add_right _ _
    · exact Nat.le_refl _
  unfold dataTs raises
  rcases Nat.lt_or_eq_of_le h with h | h
  · omega
  · rw [← h, beq_self_eq_true]
    exact Nat.lt_succ_of_le ho

theorem Latest.parse (h : Latest (core r) g) (hu : Unstamped (core r)) (hz : Sized r) (hw : NoWrap r) (hf : Forward r) :
    Latest (core (parse r).reader) (stampings.parsed g r) := by
  have hm : (Impl.Cutter.parse r).reader.needModifyTs = r.needModifyTs := parse_needModifyTs r
  have hgrow : ∀ {ts : Nat}, (Impl.Cutter.parse r).reader.flvTagTimestamp = ts → r.flvTagTimestamp ≤ ts →
      (∀ t ∈ placedTags r, r.flvTagTimestamp < t.stamp ∧ t.stamp ≤ ts) →
      Latest (core (Impl.Cutter.parse r).reader) (stampings.parsed g r) := fun e hle hnew => by
    subst e
    exact h.grow _ hm hle hnew
  by_cases he : EndsHeader r
  · obtain ⟨hg, hd⟩ := hu.head he.1.1 he.1.2
    obtain ⟨h₁, -, h₃⟩ := endsHeader_noWrap he hw hz h.modify hg hd
    apply hgrow h₁ le_headTs
    intro t ht
    by_cases hmd : IsMedia r.readingBuffer
    · rw [placedTags, if_pos ⟨he, hmd⟩, List.mem_singleton] at ht
      subst ht
      show r.flvTagTimestamp < stampLeft _ ∧ stampLeft _ ≤ headTs r
      rw [h₃]
      exact ⟨lt_headTs (hf.1 he hmd), Nat.le_refl _⟩
    · have hn : ¬ MediaHead r := fun hc => hmd hc.2
      rw [placedTags, if_neg fun hc => hmd hc.2, if_neg fun hc => hn hc.1] at ht
      cases ht
  · by_cases hmd : MediaHead r
    · obtain ⟨h₁, -, h₃⟩ := mediaHead_noWrap hmd hw hz h.modify
      have hlt := lt_dataTs (hf.2 hmd)
      apply hgrow h₁ (Nat.le_of_lt hlt)
      intro t ht
      rw [placedTags, if_neg fun hc => he hc.1] at ht
      split at ht
      · rename_i hc
        rw [List.mem_singleton] at ht
        subst ht
        show r.flvTagTimestamp < stampLeft _ ∧ stampLeft _ ≤ dataTs r
        rw [h₃ hc.2]
        exact ⟨hlt, Nat.le_refl _⟩
      · cases ht
    · have hp := placedTags_nil he hmd
      have hsame : (Impl.Cutter.parse r).reader.flvTagTimestamp = r.flvTagTimestamp := by
        by_cases hr : r.readingStat = .head
        · cases hs : r.stat with
          | needHead => exact (parse_fileheader hs hr).1
          | needFlvData => exact absurd hr (hu.parsing hs)
        · exact congrArg (·.1) (parse_memory hr he hmd)
      exact hgrow hsame (Nat.le_refl _) fun t ht => by rw [hp] at ht; cases ht

theorem stampings_latest : stampings.Keeps (fun _ r => NoWrap r ∧ Forward r) (fun r g => Latest r g ∧ Unstamped r) Latest where
  lasts _ _ h := h.1
  begin _ _ h := ⟨h.modify, h.earlier, h.tags, h.first⟩
  connect r g h := by
    refine ⟨⟨h.modify, fun x hx => ?_, (fun t ht => by cases ht), fun t ht => by cases ht⟩, ?_⟩
    · rcases List.mem_append.mp hx with hx | hx
      · exact h.earlier x hx
      · obtain ⟨t, ht, rfl⟩ := List.mem_map.mp hx
        exact h.tags t ht
    · exact ⟨(fun e => by cases e), (fun _ e => by cases e), fun _ e => by cases e⟩
  stops _ _ h hz hok _ := h.1.parse h.2 hz hok.1 hok.2
  parse _ _ h hz hok hres := ⟨h.1.parse h.2 hz hok.1 hok.2, h.2.parse hres⟩

end

/-- In every run in which nothing wraps and no tag goes back, the first audio or
video data tag of a connection is left with a timestamp greater than that of
every one placed on the connections before. -/
theorem timeline_continues (url : List Char) (kf : Bool) (scale mediaTs : Nat) {s : Noted Stamping}
    (h : Reach stampings.step (Notes.Meets fun _ r => NoWrap r ∧ Forward r)
      ⟨startReader url kf true scale mediaTs, ⟨[], [], []⟩⟩ s)
    {t : Placed} (ht : t ∈ s.note.tags.head?) {x : Nat} (hx : x ∈ s.note.earlier) : x < t.stamp := by
  have h₀ : Latest (core (startReader url kf true scale mediaTs)) ⟨[], [], []⟩ :=
    ⟨rfl, (fun x hx => by cases hx), (fun t ht => by cases ht), fun t ht => by cases ht⟩
  exact (Notes.invariant stampings_latest h₀ rfl (fun e => by cases e) h).first t ht x hx

/-- A video tag with a timestamp. -/
def videoAt (ts : Nat) : List Event := (requests [video ts]).map .data

/-- Two connections with a tag at the same time. -/
def twice : List Event := connected ++ videoAt 1000 ++ [.lost] ++ connected ++ videoAt 1000

theorem timeline_continues_twice :
    ∃ s, Reach stampings.step (Notes.Meets fun _ r => NoWrap r ∧ Forward r)
        ⟨startReader ['u'] false true 1 0, ⟨[], [], []⟩⟩ s ∧
      s.note.earlier = [1000] ∧ s.note.tags.head? = some ⟨1000, 1001, true⟩ ∧ 1000 < 1001 := by
  have h : (runIf stampings.step (Notes.Meets fun _ r => NoWrap r ∧ Forward r)
      ⟨startReader ['u'] false true 1 0, ⟨[], [], []⟩⟩ twice).map (fun s => (s.note.earlier, s.note.tags.head?)) =
      some ([1000], some ⟨1000, 1001, true⟩) := by
    decide +kernel
  obtain ⟨s, hr, h⟩ := Option.map_eq_some_iff.mp h
  have he : s.note.earlier = [1000] := congrArg Prod.fst h
  have ht : s.note.tags.head? = some ⟨1000, 1001, true⟩ := congrArg Prod.snd h
  exact ⟨s, .of_runIf hr, he, ht, timeline_continues ['u'] false 1 0 (.of_runIf hr) ht (by rw [he]; exact List.mem_singleton_self _)⟩

/-- The header of a tag that goes back by nine slots ends the first connection. -/
def backwardGap : List Event := connected ++ videoAt 10000 ++ (videoAt 1000).take 1 ++ connected ++ videoAt 2000

/-- The tag left behind has set `flv_tag_timestamp_` back: the next connection
begins at 2000, eight seconds before the tag already placed. -/
theorem timeline_repeats :
    ∃ s t x, Reach stampings.step (Notes.Meets fun _ r => NoWrap r) ⟨startReader ['u'] false true 1 0, ⟨[], [], []⟩⟩ s ∧
      t ∈ s.note.tags.head? ∧ x ∈ s.note.earlier ∧ ¬ x < t.stamp := by
  have h : (runIf stampings.step (Notes.Meets fun _ r => NoWrap r)
      ⟨startReader ['u'] false true 1 0, ⟨[], [], []⟩⟩ backwardGap).map (fun s => (s.note.earlier, s.note.tags.head?)) =
      some ([10000], some ⟨2000, 2000, false⟩) := by
    decide +kernel
  obtain ⟨s, hr, h⟩ := Option.map_eq_some_iff.mp h
  have he : s.note.earlier = [10000] := congrArg Prod.fst h
  exact ⟨s, ⟨2000, 2000, false⟩, 10000, .of_runIf hr, congrArg Prod.snd h, by rw [he]; exact List.mem_singleton_self _, by decide⟩

end XH.Proof.Cutter
