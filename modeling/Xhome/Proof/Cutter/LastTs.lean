import Mathlib.Data.List.Induction
import Xhome.Impl.Cutter.Init

/-!
# The last timestamp of a block

`GetLastTsInPiece` walks back over the tags of a block, by the size behind each
of them, to the last one with a timestamp. `lastTsTrace` is its loop with the
places it reads; by induction from the last tag of a block to the first it ends,
with the last timestamp that is not 0, and has read inside the file only
(`lastTsTrace_eq`). The positions are of the type `size_t`, so the block has to
be shorter than `2^32` bytes (`last_timestamp`, `last_timestamp_missed`).
-/

namespace XH.Proof.Cutter

open XH.Impl.Cutter

/-- The size of the tag that begins with these bytes, with the size behind it. -/
def tagSize (d : List Byte) : Nat := flvTagheaderTSize + tagDatasize d + flvPrevioustagsizeSize

/-- A whole tag with its size behind it. -/
structure Tagged (t : Buffer) : Prop where
  whole : t.length = tagSize t
  size : flvUI32 (t.drop (flvTagheaderTSize + tagDatasize t)) 0 = flvTagheaderTSize + tagDatasize t

instance (t : Buffer) : Decidable (Tagged t) :=
  decidable_of_iff (t.length = tagSize t ∧
      flvUI32 (t.drop (flvTagheaderTSize + tagDatasize t)) 0 = flvTagheaderTSize + tagDatasize t)
    ⟨fun h => ⟨h.1, h.2⟩, fun h => ⟨h.whole, h.size⟩⟩

/-- The last number other than 0. -/
def lastNonzero (l : List Nat) : Nat := (l.filter (· ≠ 0)).getLast?.getD 0

theorem lastNonzero_concat (l : List Nat) (x : Nat) : lastNonzero (l ++ [x]) = if x = 0 then lastNonzero l else x := by
  by_cases h : x = 0
  · simp [lastNonzero, h]
  · simp [lastNonzero, h]

/-- The loop of `GetLastTsInPiece` with its reads, each a position and a number
of bytes; `none` if the rounds are used up. -/
def lastTsTrace (content : List Byte) : Nat → Nat → Nat → Buffer → Bool → Buffer → Option (Nat × List (Nat × Nat))
  | 0, _, _, _, _, _ => none
  | n + 1, ts, tagSizePos, tagSizeMem, fail, tagHeader =>
    if ts = 0 ∧ tagSizePos > 1400 then
      let r := readAt content fail tagSizePos tagSizeMem
      let tagSize := flvUI32 r.1 0
      if tagSize = 0 then some (ts, [(tagSizePos, tagSizeMem.length)])
      else
        let tagHeaderPos := sub32 tagSizePos tagSize
        if tagHeaderPos < 1413 then some (ts, [(tagSizePos, tagSizeMem.length)])
        else
          let r' := readAt content r.2 tagHeaderPos tagHeader
          (lastTsTrace content n (getTagTs r'.1) (sub32 tagHeaderPos 4) (le32 tagSize) r'.2 r'.1).map fun e =>
            (e.1, (tagSizePos, tagSizeMem.length) :: (tagHeaderPos, tagHeader.length) :: e.2)
    else some (ts, [])

/-- The loop with its reads is the loop. -/
theorem lastTsLoop_of_trace {content : List Byte} : ∀ {n ts pos : Nat} {mem : Buffer} {fail : Bool} {hdr : Buffer}
    {e : Nat × List (Nat × Nat)}, lastTsTrace content n ts pos mem fail hdr = some e →
      lastTsLoop content n ts pos mem fail hdr = e.1
  | 0, _, _, _, _, _, _, h => by cases h
  | n + 1, ts, pos, mem, fail, hdr, e, h => by
    unfold lastTsTrace at h
    unfold lastTsLoop
    split at h
    · rename_i hc
      rw [if_pos hc]
      dsimp only at h ⊢
      split at h
      · rename_i hz
        rw [if_pos hz]
        exact congrArg Prod.fst (Option.some.inj h)
      · rename_i hz
        rw [if_neg hz]
        split at h
        · rename_i hp
          rw [if_pos hp]
          exact congrArg Prod.fst (Option.some.inj h)
        · rename_i hp
          rw [if_neg hp]
          obtain ⟨e', he, rfl⟩ := Option.map_eq_some_iff.mp h
          have hl := lastTsLoop_of_trace he
          exact hl
    · rename_i hc
      rw [if_neg hc]
      exact congrArg Prod.fst (Option.some.inj h)

/-- The loop of `GetLastTsInPiece` from its start. -/
def lastTsReads (content : List Byte) : Option (Nat × List (Nat × Nat)) :=
  lastTsTrace content (content.length + 1) 0 (sub32 content.length 4) (List.replicate 4 0) false
    (List.replicate flvTagheaderTSize 0)

theorem getLastTsInPiece_of_reads {content : List Byte} {e : Nat × List (Nat × Nat)} (h : lastTsReads content = some e) :
    getLastTsInPiece content = e.1 := lastTsLoop_of_trace h

theorem readAt_inside {content : List Byte} {pos : Nat} {mem : Buffer} (h : pos + mem.length ≤ content.length) :
    readAt content false pos mem = ((content.drop pos).take mem.length, false) := by
  have hl : ((content.drop pos).take mem.length).length = mem.length := by
    rw [List.length_take, List.length_drop]
    omega
  simp only [readAt, Bool.false_eq_true, ite_false, hl, Nat.lt_irrefl, decide_false, List.drop_length, List.append_nil]

/-- The tag header that is read. -/
theorem getTagTs_take (t : Buffer) : getTagTs (t.take flvTagheaderTSize) = getTagTs t := by
  have hb : ∀ i < flvTagheaderTSize, byteAt (t.take flvTagheaderTSize) i = byteAt t i := fun i hi => by
    rw [byteAt, byteAt, List.getD_eq_getElem?_getD, List.getD_eq_getElem?_getD, List.getElem?_take_of_lt hi]
  simp only [getTagTs, flvUI24, hb 4 (by decide), hb (4 + 1) (by decide), hb (4 + 2) (by decide), hb 7 (by decide)]

/-- The loop ends with the value `v`, and its reads lie inside the file. -/
def EndsWith (content : List Byte) (v : Nat) (o : Option (Nat × List (Nat × Nat))) : Prop :=
  ∃ reads, o = some (v, reads) ∧ ∀ r ∈ reads, r.1 + r.2 ≤ content.length

theorem lastTsTrace_of_ne {content : List Byte} {ts : Nat} (h : ts ≠ 0) (n pos : Nat) (mem : Buffer) (fail : Bool) (hdr : Buffer) :
    EndsWith content ts (lastTsTrace content (n + 1) ts pos mem fail hdr) :=
  ⟨[], if_neg fun hc => h hc.1, fun _ hr => by cases hr⟩

/-- The size read is 0: the loop ends. -/
theorem lastTsTrace_stops {content : List Byte} {n pos : Nat} {mem hdr : Buffer} (hm : mem.length = 4)
    (hin : pos + 4 ≤ content.length) (hz : flvUI32 ((content.drop pos).take 4) 0 = 0) :
    EndsWith content 0 (lastTsTrace content (n + 1) 0 pos mem false hdr) := by
  unfold lastTsTrace
  rw [readAt_inside (by omega), hm]
  dsimp only
  rw [if_pos hz]
  split
  · exact ⟨_, rfl, fun r hr => by rw [List.mem_singleton.mp hr]; exact hin⟩
  · exact ⟨_, rfl, fun _ hr => by cases hr⟩

/-- One round of the loop, at the tag of `z` bytes before `pos`. -/
theorem lastTsTrace_round {content : List Byte} {n pos z v : Nat} {mem hdr : Buffer} (hm : mem.length = 4)
    (hh : hdr.length = flvTagheaderTSize) (hin : pos + 4 ≤ content.length) (hlt : pos < 2 ^ 32)
    (hz : flvUI32 ((content.drop pos).take 4) 0 = z) (h₀ : flvTagheaderTSize ≤ z)
    (hle : flvBlockHeaderTSize + flvFileheaderTSize + z ≤ pos)
    (hrest : EndsWith content v
      (lastTsTrace content n (getTagTs ((content.drop (pos - z)).take flvTagheaderTSize)) (pos - z - 4) (le32 z) false
        ((content.drop (pos - z)).take flvTagheaderTSize))) :
    EndsWith content v (lastTsTrace content (n + 1) 0 pos mem false hdr) := by
  simp only [flvBlockHeaderTSize, flvFileheaderTSize, flvTagheaderTSize] at h₀ hle hh hrest ⊢
  obtain ⟨reads, he, hreads⟩ := hrest
  have hp : pos > 1400 := by omega
  have hpos : sub32 pos z = pos - z := sub32_of_le hlt (by omega)
  have hnext : sub32 (pos - z) 4 = pos - z - 4 := sub32_of_le (by omega) (by omega)
  refine ⟨(pos, 4) :: (pos - z, 11) :: reads, ?_, fun r hr => ?_⟩
  · unfold lastTsTrace
    rw [if_pos ⟨rfl, hp⟩, readAt_inside (by omega), hm]
    dsimp only
    rw [hz, if_neg (by omega), hpos, if_neg (by omega), readAt_inside (by omega), hh, hnext, he]
    rfl
  · rcases List.mem_cons.mp hr with rfl | hr
    · exact hin
    · rcases List.mem_cons.mp hr with rfl | hr
      · show pos - z + 11 ≤ content.length
        omega
      · exact hreads r hr

/-- One round of the loop from behind the tag `t`. -/
theorem lastTsTrace_tag {front t : Buffer} (ht : Tagged t) (rest : List Byte) (n : Nat) {v : Nat} {mem hdr : Buffer}
    (hf : flvBlockHeaderTSize + flvFileheaderTSize ≤ front.length) (hlen : (front ++ (t ++ rest)).length < 2 ^ 32)
    (hm : mem.length = 4) (hh : hdr.length = flvTagheaderTSize)
    (hrest : EndsWith (front ++ (t ++ rest)) v
      (lastTsTrace (front ++ (t ++ rest)) n (getTagTs t) (front.length - 4) (le32 (flvTagheaderTSize + tagDatasize t)) false
        (t.take flvTagheaderTSize))) :
    EndsWith (front ++ (t ++ rest)) v
      (lastTsTrace (front ++ (t ++ rest)) (n + 1) 0 (front.length + t.length - 4) mem false hdr) := by
  have hwhole : t.length = flvTagheaderTSize + tagDatasize t + 4 := ht.whole
  -- the size behind the tag, and its header
  have hsize : ((front ++ (t ++ rest)).drop (front.length + t.length - 4)).take 4 = t.drop (flvTagheaderTSize + tagDatasize t) := by
    have hpos : front.length + t.length - 4 = front.length + (flvTagheaderTSize + tagDatasize t) := by omega
    have hd : (t.drop (flvTagheaderTSize + tagDatasize t)).length = 4 := by
      rw [List.length_drop]
      omega
    rw [hpos, List.drop_length_add_append, List.drop_append_of_le_length (by omega), List.take_left' hd]
  have hpos : front.length + t.length - 4 - (flvTagheaderTSize + tagDatasize t) = front.length := by omega
  have hhead : ((front ++ (t ++ rest)).drop front.length).take flvTagheaderTSize = t.take flvTagheaderTSize := by
    rw [List.drop_left' rfl, List.take_append_of_le_length (by omega)]
  have hin : (front ++ (t ++ rest)).length = front.length + (t.length + rest.length) := by
    rw [List.length_append, @List.length_append _ t]
  apply lastTsTrace_round hm hh (by omega) (by omega) (by rw [hsize]; exact ht.size) (Nat.le_add_right _ _) (by omega)
  rw [hpos, hhead, getTagTs_take]
  exact hrest

/-- The loop from behind the tags `ts`. -/
theorem lastTsTrace_eq {front : List Byte} (hf : front.length = flvBlockHeaderTSize + flvFileheaderTSize)
    (h₀ : front.drop (flvBlockHeaderTSize + 9) = [0, 0, 0, 0]) :
    ∀ (ts : List Buffer) (rest : List Byte) (n : Nat) (mem hdr : Buffer), (∀ t ∈ ts, Tagged t) →
      (front ++ ts.flatten ++ rest).length < 2 ^ 32 → ts.length < n → mem.length = 4 → hdr.length = flvTagheaderTSize →
      EndsWith (front ++ ts.flatten ++ rest) (lastNonzero (ts.map getTagTs))
        (lastTsTrace (front ++ ts.flatten ++ rest) n 0 ((front ++ ts.flatten).length - 4) mem false hdr) := by
  intro ts
  -- from the last tag to the first
  induction ts using List.reverseRecOn with
  | nil =>
    intro rest n mem hdr _ hlen hn hm _
    obtain ⟨n, rfl⟩ : ∃ m, n = m + 1 := ⟨n - 1, by omega⟩
    have hpos : (front ++ ([] : List Buffer).flatten).length - 4 = flvBlockHeaderTSize + 9 := by
      rw [List.flatten_nil, List.append_nil, hf]
      rfl
    have hdrop : ((front ++ ([] : List Buffer).flatten ++ rest).drop (flvBlockHeaderTSize + 9)).take 4 = [0, 0, 0, 0] := by
      rw [List.flatten_nil, List.append_nil, List.drop_append_of_le_length (by rw [hf]; decide), h₀]
      rfl
    rw [hpos]
    refine lastTsTrace_stops hm ?_ (by rw [hdrop]; rfl)
    rw [List.flatten_nil, List.append_nil, List.length_append, hf]
    simp only [flvFileheaderTSize]
    omega
  | append_singleton ts t ih =>
    intro rest n mem hdr hok hlen hn hm hh
    obtain ⟨n, rfl⟩ : ∃ m, n = m + 1 := ⟨n - 1, by omega⟩
    have ht : Tagged t := hok t (List.mem_append_right _ (List.mem_singleton_self _))
    have hassoc : front ++ (ts ++ [t]).flatten ++ rest = front ++ ts.flatten ++ (t ++ rest) := by simp
    have hlength : (front ++ (ts ++ [t]).flatten).length = (front ++ ts.flatten).length + t.length := by simp [Nat.add_assoc]
    have hfront : flvBlockHeaderTSize + flvFileheaderTSize ≤ (front ++ ts.flatten).length := by
      rw [List.length_append, hf]
      omega
    rw [List.length_append, List.length_singleton] at hn
    rw [hassoc] at hlen
    rw [hassoc, hlength, List.map_append, List.map_singleton, lastNonzero_concat]
    apply lastTsTrace_tag ht rest n hfront hlen hm hh
    split
    · rename_i hz
      rw [hz]
      refine ih (t ++ rest) n _ _ (fun x hx => hok x (List.mem_append_left _ hx)) hlen (by omega) rfl ?_
      have hwhole : t.length = flvTagheaderTSize + tagDatasize t + 4 := ht.whole
      rw [List.length_take]
      omega
    · obtain ⟨n, rfl⟩ : ∃ m, n = m + 1 := ⟨n - 1, by omega⟩
      exact lastTsTrace_of_ne ‹_› _ _ _ _ _

theorem length_le_flatten {ts : List Buffer} (h : ∀ t ∈ ts, Tagged t) : ts.length ≤ ts.flatten.length := by
  induction ts with
  | nil => exact Nat.zero_le _
  | cons t ts ih =>
    have ht : t.length = flvTagheaderTSize + tagDatasize t + 4 := (h t List.mem_cons_self).whole
    have := ih fun x hx => h x (List.mem_cons_of_mem _ hx)
    rw [List.length_cons, List.flatten_cons, List.length_append]
    omega

/-- `GetLastTsInPiece` on a block made of a block header, a file header and
tags: it ends, reads inside the file only, and returns the last timestamp that
is not 0, or 0. -/
theorem last_timestamp {header fileHeader : List Byte} {tags : List Buffer} (hh : header.length = flvBlockHeaderTSize)
    (hf : fileHeader.length = flvFileheaderTSize) (h₀ : fileHeader.drop 9 = [0, 0, 0, 0]) (ht : ∀ t ∈ tags, Tagged t)
    (hlt : (header ++ fileHeader ++ tags.flatten).length < 2 ^ 32) :
    getLastTsInPiece (header ++ fileHeader ++ tags.flatten) = lastNonzero (tags.map getTagTs) ∧
      ∃ reads, lastTsReads (header ++ fileHeader ++ tags.flatten) = some (lastNonzero (tags.map getTagTs), reads) ∧
        ∀ r ∈ reads, r.1 + r.2 ≤ (header ++ fileHeader ++ tags.flatten).length := by
  have hfront : (header ++ fileHeader).length = flvBlockHeaderTSize + flvFileheaderTSize := by
    rw [List.length_append, hh, hf]
  have hzero : (header ++ fileHeader).drop (flvBlockHeaderTSize + 9) = [0, 0, 0, 0] := by
    rw [← hh, List.drop_length_add_append, h₀]
  have hcount := length_le_flatten ht
  have hpos : 4 ≤ (header ++ fileHeader ++ tags.flatten).length := by
    rw [List.length_append, hfront]
    simp only [flvBlockHeaderTSize]
    omega
  have h := lastTsTrace_eq hfront hzero tags [] ((header ++ fileHeader ++ tags.flatten).length + 1) (List.replicate 4 0)
    (List.replicate flvTagheaderTSize 0) ht (by rw [List.append_nil]; exact hlt)
    (by rw [List.length_append]; omega) rfl rfl
  rw [List.append_nil, ← sub32_of_le hlt hpos] at h
  obtain ⟨reads, he, hreads⟩ := h
  exact ⟨getLastTsInPiece_of_reads he, reads, he, hreads⟩

/-- A video tag at 40 ms with `n` bytes, and its size. -/
def videoTag (n : Nat) : Buffer :=
  [9, .ofNat 8 (n / 2 ^ 16), .ofNat 8 (n / 2 ^ 8), .ofNat 8 n, 0, 0, 40, 0, 0, 0, 0] ++ (List.replicate n 0x27 ++
    [.ofNat 8 ((n + 11) / 2 ^ 24), .ofNat 8 ((n + 11) / 2 ^ 16), .ofNat 8 ((n + 11) / 2 ^ 8), .ofNat 8 (n + 11)])

theorem length_videoTag (n : Nat) : (videoTag n).length = n + 15 := by
  simp [videoTag]

theorem getTagTs_videoTag (n : Nat) : getTagTs (videoTag n) = 40 := by
  simp only [getTagTs, flvUI24, byteAt, videoTag, List.cons_append, List.getD_cons_succ, List.getD_cons_zero]
  rfl

theorem tagged_videoTag {n : Nat} (h : n < 2 ^ 24) : Tagged (videoTag n) := by
  have hd : tagDatasize (videoTag n) = n := by
    simp only [tagDatasize, flvUI24, byteAt, videoTag, List.cons_append, List.getD_cons_succ, List.getD_cons_zero,
      BitVec.toNat_ofNat]
    omega
  refine ⟨?_, ?_⟩
  · rw [length_videoTag, tagSize, hd]
    simp only [flvTagheaderTSize, flvPrevioustagsizeSize]
    omega
  · have hdrop : (videoTag n).drop (flvTagheaderTSize + n) =
        [.ofNat 8 ((n + 11) / 2 ^ 24), .ofNat 8 ((n + 11) / 2 ^ 16), .ofNat 8 ((n + 11) / 2 ^ 8), .ofNat 8 (n + 11)] := by
      rw [videoTag, ← List.append_assoc]
      apply List.drop_left'
      simp [flvTagheaderTSize]
      omega
    rw [hd, hdrop]
    simp only [flvUI32, byteAt, List.getD_cons_succ, List.getD_cons_zero, BitVec.toNat_ofNat, flvTagheaderTSize]
    omega

/-- Two video tags. -/
theorem last_timestamp_two :
    getLastTsInPiece (List.replicate 1400 0 ++ [70, 76, 86, 1, 5, 0, 0, 0, 9, 0, 0, 0, 0] ++ [videoTag 5, videoTag 7].flatten) =
        lastNonzero ([videoTag 5, videoTag 7].map getTagTs) ∧
      ∃ reads, lastTsReads
          (List.replicate 1400 0 ++ [70, 76, 86, 1, 5, 0, 0, 0, 9, 0, 0, 0, 0] ++ [videoTag 5, videoTag 7].flatten) =
          some (lastNonzero ([videoTag 5, videoTag 7].map getTagTs), reads) ∧
        ∀ r ∈ reads, r.1 + r.2 ≤
          (List.replicate 1400 (0 : Byte) ++ [70, 76, 86, 1, 5, 0, 0, 0, 9, 0, 0, 0, 0] ++ [videoTag 5, videoTag 7].flatten).length :=
  last_timestamp List.length_replicate rfl rfl
    (fun t ht => by
      rcases List.mem_pair.mp ht with rfl | rfl
      · exact tagged_videoTag (by omega)
      · exact tagged_videoTag (by omega))
    (by
      rw [List.length_append, List.length_append, List.length_replicate, List.length_flatten]
      simp [length_videoTag])

/-- A file of `2^32 + 1313` bytes: its length less 4 is 1309 in a `size_t`, and
no tag is looked at. -/
theorem last_timestamp_missed :
    ∃ (header fileHeader : List Byte) (tags : List Buffer), header.length = flvBlockHeaderTSize ∧
      fileHeader.length = flvFileheaderTSize ∧ fileHeader.drop 9 = [0, 0, 0, 0] ∧ (∀ t ∈ tags, Tagged t) ∧
      lastNonzero (tags.map getTagTs) = 40 ∧ getLastTsInPiece (header ++ fileHeader ++ tags.flatten) = 0 := by
  let tags : List Buffer := List.replicate 255 (videoTag (2 ^ 24 - 15)) ++ [videoTag (2 ^ 24 - 115)]
  have htags : tags.flatten.length = 2 ^ 32 - 100 := by
    simp only [tags, List.length_flatten, List.map_append, List.map_replicate, List.map_singleton, length_videoTag,
      List.sum_append, List.sum_replicate_nat, List.sum_singleton]
    omega
  refine ⟨List.replicate 1400 0, [70, 76, 86, 1, 5, 0, 0, 0, 9, 0, 0, 0, 0], tags, List.length_replicate, rfl, rfl,
    fun t ht => ?_, ?_, ?_⟩
  · rcases List.mem_append.mp ht with ht | ht
    · rw [List.eq_of_mem_replicate ht]
      exact tagged_videoTag (by omega)
    · rw [List.mem_singleton.mp ht]
      exact tagged_videoTag (by omega)
  · rw [List.map_append, List.map_singleton, lastNonzero_concat, getTagTs_videoTag]
    rfl
  · generalize tags.flatten = d at htags
    have hlen : (List.replicate 1400 0 ++ [70, 76, 86, 1, 5, 0, 0, 0, 9, 0, 0, 0, 0] ++ d).length = 2 ^ 32 + 1313 := by
      rw [List.length_append, htags, List.length_append, List.length_replicate]
      rfl
    have hpos : ¬ (0 = 0 ∧ sub32 (2 ^ 32 + 1313) 4 > 1400) := fun h => absurd h.2 (by decide)
    rw [getLastTsInPiece, hlen, lastTsLoop, if_neg hpos]

end XH.Proof.Cutter
