import Xhome.Proof.Cutter.PlainCuts

/-!
# The wrap of the timestamps

Timestamps have 31 bits, and the ones given to the tags of a stream wrap with
them, whatever `flv_tag_ts_delta_` is. The reader finds a wrap by the slot before
it: `429490` is just below the last slot for pieces of five seconds, so with
longer ones no wrap is found and the tags behind it are a big gap. With shorter
ones the slot advance at the wrap is detected where the cut interval that it
interrupts would end, on the time line as if it went on. Each cut interval has
its slot advance if and only if that point is reached in the first one behind
the wrap (`wrap_survived_iff`).
-/

namespace XH.Proof.Cutter

open XH.Impl.Cutter

/-! ## Streams -/

/-- 31-bit timestamps that advance from `a` in steps smaller than `scale`. -/
def Advancing (scale : Nat) : Nat → List Nat → Prop
  | _, [] => True
  | a, b :: bs => b < 2 ^ 31 ∧ 0 < (b + 2 ^ 31 - a) % 2 ^ 31 ∧ (b + 2 ^ 31 - a) % 2 ^ 31 < scale ∧ Advancing scale b bs

/-- The timestamps given to tags, `delta` behind their own ones. -/
def given (delta : Nat) (ts : List Tag) : List Nat := ts.map fun t => (getTagTs t.head + delta) % 2 ^ 31

/-- The slots of the tags that the reader takes, with the slot advances detected. -/
def slotTrace : Reader → List Tag → List (Nat × Bool)
  | _, [] => []
  | r, t :: ts =>
    ((placeTag (holding r t.head)).curFlvTagTs, decide (slotAdvances (placeTag (holding r t.head)))) ::
      slotTrace (readTag r t).1 ts

/-- One slot advance in each cut interval left behind, and at most one in the last;
`n` have been detected in the one with the slot `k`. -/
def OnePerSlot : (k n : Nat) → List (Nat × Bool) → Prop
  | _, n, [] => n ≤ 1
  | k, n, x :: xs => if x.1 = k then OnePerSlot k (n + x.2.toNat) xs else n = 1 ∧ OnePerSlot x.1 x.2.toNat xs

/-- Behind a wrap at the tag with the timestamp `p`, the timestamp `a` is past the
cut interval of `p`, and the pieces are short enough to see it. -/
def Past (scale p a : Nat) : Prop := scale ≤ 5000 ∧ p / scale < (a + 2 ^ 31) / scale

instance (scale p a : Nat) : Decidable (Past scale p a) := inferInstanceAs (Decidable (_ ∧ _))

/-- Whenever the timestamps leave the first cut interval behind a wrap, the last
one in it is past the cut interval of the one before the wrap. `wrapped` is that
timestamp, while they have not left it. -/
def Recognised (scale : Nat) : (wrapped : Option Nat) → (a : Nat) → List Nat → Prop
  | _, _, [] => True
  | wrapped, a, b :: bs =>
    if b < a then Recognised scale (some a) b bs
    else if b < scale then Recognised scale wrapped b bs
    else (∀ p ∈ wrapped, Past scale p a) ∧ Recognised scale none b bs

/-! ## Arithmetic -/

section
variable {scale a b c p : Nat}

/-- The steps are those of the tags. -/
theorem advancing_given {scale delta : Nat} :
    ∀ {a : Nat} {ts : List Tag}, a < 2 ^ 31 → Advancing scale a (ts.map fun t => getTagTs t.head) →
      Advancing scale ((a + delta) % 2 ^ 31) (given delta ts)
  | _, [], _, _ => trivial
  | a, t :: ts, ha, ⟨hb, h₁, h₂, h⟩ => by
    have hstep : ((getTagTs t.head + delta) % 2 ^ 31 + 2 ^ 31 - (a + delta) % 2 ^ 31) % 2 ^ 31 =
        (getTagTs t.head + 2 ^ 31 - a) % 2 ^ 31 := by omega
    refine ⟨Nat.mod_lt _ (by decide), ?_, ?_, advancing_given hb h⟩
    · rw [hstep]; exact h₁
    · rw [hstep]; exact h₂

theorem source_lt {scale : Nat} :
    ∀ {a : Nat} {ts : List Tag} {t : Tag}, Advancing scale a (ts.map fun t => getTagTs t.head) → t ∈ ts → getTagTs t.head < 2 ^ 31
  | _, _ :: _, _, ⟨hb, _, _, h⟩, ht => by
    rcases List.mem_cons.mp ht with rfl | ht
    · exact hb
    · exact source_lt h ht

/-- The slot before a wrap is large if the pieces are short. -/
theorem last_slot {k : Nat} (hk : 1 ≤ k) (hs : scale = k * 1000) (hp : p < 2 ^ 31) (h : 2 ^ 31 < p + scale) :
    429490 < p / scale ↔ scale ≤ 5000 := by
  constructor
  · intro hlt
    by_contra hc
    have h₁ : p / scale ≤ p / 6000 := Nat.div_le_div_left (by omega) (by decide)
    omega
  · intro hle
    have h₁ : p / 5000 ≤ p / scale := Nat.div_le_div_left hle (by omega)
    omega

/-- A slot advance is detected at the timestamp `b`, with the slot `c` before. -/
def Detected (scale c b : Nat) : Prop :=
  c < b / scale ∨ (b / scale < c ∧ (429490 < c ∧ b / scale < 10) ∧ c < (b + 2 ^ 31) / scale)

instance (scale c b : Nat) : Decidable (Detected scale c b) := inferInstanceAs (Decidable (_ ∨ _))

end

/-! ## One tag -/

section
variable {r : Reader}

/-- Each tag is given its timestamp and the offset modulo `2^31`. -/
theorem stampTag_given {s : Nat} (ha : r.flvTagTimestamp < 2 ^ 31) (hd : r.flvTagTsDelta < 2 ^ 32) (hs : s < 2 ^ 31)
    (hne : (s + r.flvTagTsDelta) % 2 ^ 31 ≠ r.flvTagTimestamp) :
    (stampTag r s).flvTagTimestamp = (s + r.flvTagTsDelta) % 2 ^ 31 ∧ (stampTag r s).flvTagTsDelta < 2 ^ 32 ∧
      (stampTag r s).flvTagTsDelta % 2 ^ 31 = r.flvTagTsDelta % 2 ^ 31 := by
  have hu : u32 (s + r.flvTagTsDelta) ≠ r.flvTagTimestamp := by
    unfold u32
    omega
  unfold stampTag
  split
  · dsimp only
    split
    · refine ⟨?_, Nat.mod_lt _ (by decide), ?_⟩
      · show u32 (s + r.flvTagTsDelta) % 2 ^ 31 = _
        unfold u32
        omega
      · show sub32 (u32 (s + r.flvTagTsDelta) % 2 ^ 31) s % 2 ^ 31 = _
        unfold sub32 u32
        omega
    · rename_i hw
      refine ⟨?_, hd, rfl⟩
      show u32 (s + r.flvTagTsDelta) = _
      unfold u32 at hw ⊢
      omega
  · rename_i h₀
    have hz : r.flvTagTsDelta = 0 := by omega
    rw [if_neg (by rw [hz] at hne; omega)]
    refine ⟨?_, hd, rfl⟩
    show s = _
    omega

theorem placeTag_given (hg : r.gotFirstDataTag = true) (ha : r.flvTagTimestamp < 2 ^ 31) (hd : r.flvTagTsDelta < 2 ^ 32)
    (hs : sourceTs r < 2 ^ 31) (hne : (sourceTs r + r.flvTagTsDelta) % 2 ^ 31 ≠ r.flvTagTimestamp) :
    (placeTag r).flvTagTimestamp = (sourceTs r + r.flvTagTsDelta) % 2 ^ 31 ∧ (placeTag r).flvTagTsDelta < 2 ^ 32 ∧
      (placeTag r).flvTagTsDelta % 2 ^ 31 = r.flvTagTsDelta % 2 ^ 31 := by
  have hb : beginData (typeTag r) (sourceTs r) = typeTag r := if_pos hg
  have he : placeTag r = slotTag (stampTag (typeTag r) (sourceTs r)) := by
    show slotTag (stampTag (beginData (typeTag r) (sourceTs r)) (sourceTs r)) = _
    rw [hb]
  rw [he]
  exact stampTag_given (r := typeTag r) ha hd hs hne

/-- The slots decide whether a slot advance is detected. -/
theorem slotAdvances_iff (hc : r.curPieceTs < 2 ^ 31) (ht : r.flvTagTimestamp < 2 ^ 31) (hs : 2 ≤ r.cutScale)
    (hcur : r.curFlvTagTs = r.flvTagTimestamp / r.cutScale) :
    slotAdvances r ↔ Detected r.cutScale r.curPieceTs r.flvTagTimestamp := by
  have hlt : r.curFlvTagTs < 2 ^ 31 := by
    rw [hcur]
    exact Nat.lt_of_le_of_lt (Nat.div_le_self _ _) ht
  have hu : u32 (r.flvTagTimestamp + 2 ^ 31) = r.flvTagTimestamp + 2 ^ 31 := u32_of_lt (by omega)
  have hlt' : (r.flvTagTimestamp + 2 ^ 31) / r.cutScale < 2 ^ 31 := by
    rw [Nat.div_lt_iff_lt_mul (by omega)]
    calc r.flvTagTimestamp + 2 ^ 31 < 2 ^ 31 * 2 := by omega
      _ ≤ 2 ^ 31 * r.cutScale := Nat.mul_le_mul_left _ hs
  have hd : tsDelta r = (r.curFlvTagTs : Int) - r.curPieceTs := i32_sub32 (by omega) (by omega) (by omega) (by omega)
  have hw : wrapDelta r = ((r.flvTagTimestamp + 2 ^ 31) / r.cutScale : Nat) - (r.curPieceTs : Int) := by
    rw [wrapDelta, hu]
    generalize (r.flvTagTimestamp + 2 ^ 31) / r.cutScale = w at hlt'
    exact i32_sub32 (by omega) (by omega) (by omega) (by omega)
  unfold slotAdvances Detected
  rw [hd, hw, ← hcur]
  generalize (r.flvTagTimestamp + 2 ^ 31) / r.cutScale = w
  constructor
  · rintro (h | ⟨h₁, h₂, h₃⟩)
    · exact .inl (by omega)
    · exact .inr ⟨by omega, h₂, by omega⟩
  · rintro (h | ⟨h₁, h₂, h₃⟩)
    · exact .inl (by omega)
    · exact .inr ⟨by omega, h₂, by omega⟩

/-- The reader gives up at no tag in slot 0 or at or behind the slot of the piece. -/
theorem cutTag_of_near (hc : r.curPieceTs < 2 ^ 31) (ht : r.curFlvTagTs < 2 ^ 31)
    (h : r.curPieceTs ≤ r.curFlvTagTs ∨ r.curFlvTagTs = 0) (hn : ¬ slotAdvances r) : cutTag r = some (r, []) := by
  rcases cutTag_of_not_advances hn with e | e
  · exact e
  · exfalso
    have hd : tsDelta r = (r.curFlvTagTs : Int) - r.curPieceTs := i32_sub32 (by omega) (by omega) (by omega) (by omega)
    unfold cutTag at e
    split_ifs at e
    · omega

/-- A step that asks for no more than the limit goes on receiving. -/
theorem finish_of_resume {o : Out} (hr : o.resume = true) (hl : o.reader.readingSize ≤ maxReadingSize) :
    finish o = (receive o.reader, o.calls) := by
  rw [finish, if_pos hr, if_neg (by omega)]

/-- A tag of the data phase whose header is appended. -/
theorem readTag_appended (hb : Between r) {t : Tag} (hl : t.body.length ≤ maxReadingSize)
    {u : Reader} {cs : List Call} (hp : parse (holding r t.head) = ⟨appendTagHead u, cs, true⟩) (hu : u.stat = .needFlvData) :
    readTag r t = (receive (flvDataTagbody (holding (appendTagHead u) t.body)).reader,
      cs ++ (flvDataTagbody (holding (appendTagHead u) t.body)).calls) := by
  have hlh : 0 < t.head.length := by rw [t.length_head]; exact Nat.succ_pos _
  have hlb : 0 < t.body.length := by rw [t.length_body]; exact Nat.succ_pos _
  have hres : (parse (holding r t.head)).resume = true := by rw [hp]
  have hsz : (parse (holding r t.head)).reader.readingSize ≤ maxReadingSize := by
    rw [(parse_head hb hres).1, ← t.length_body]
    exact hl
  have hrecv := recv_whole t.head hb.op (hb.readingSize.trans t.length_head.symm) (t.length_head.trans hb.length.symm) hlh
  rw [finish_of_resume hres hsz] at hrecv
  obtain ⟨hw, hi | ⟨o, rfl, -, hf, hw', h₂⟩⟩ := recv_head hb t
  · rw [hrecv] at hi
    cases hi
  · rw [hp] at hf hw' h₂
    dsimp only at hf hw' h₂
    have hbody : parse (holding (appendTagHead u) t.body) = flvDataTagbody (holding (appendTagHead u) t.body) := by
      simp only [parse, holding, appendTagHead, pushTagHead, countSeek, hu]
    have hfin : finish (flvDataTagbody (holding (appendTagHead u) t.body)) =
        (receive (flvDataTagbody (holding (appendTagHead u) t.body)).reader,
          (flvDataTagbody (holding (appendTagHead u) t.body)).calls) :=
      finish_of_resume rfl (show flvTagheaderTSize ≤ maxReadingSize by decide)
    rw [hbody, hfin] at h₂
    rw [readTag, Receiver.run, if_neg (by omega), hf]
    simp only [Receiver.andThen, Receiver.run, if_neg (show content.want (receive (appendTagHead u)) ≠ 0 by omega), h₂,
      List.append_nil]

/-- What the body of a tag does not touch. -/
theorem flvDataTagbody_keeps (r : Reader) : memory (flvDataTagbody r).reader = memory r ∧
    (flvDataTagbody r).reader.curPieceTs = r.curPieceTs ∧ (flvDataTagbody r).reader.cutScale = r.cutScale := by
  have hi : (insertEmptyPieces (dataTag r).1).1.curPieceTs = (dataTag r).1.curPieceTs := by
    unfold insertEmptyPieces
    split <;> rfl
  have happend : ∀ s : Reader, (appendTagBody (countSeek s)).curPieceTs = s.curPieceTs := fun _ => rfl
  refine ⟨(appendTagBody_memory _).trans ((insertEmptyPieces_memory _).trans (dataTag_memory r)),
    (happend _).trans (hi.trans (dataTag_curPieceTs r)), ?_⟩
  exact cutScale_of_config ((appendTagBody_config _).trans ((insertEmptyPieces_config _).trans (dataTag_config r)))

/-- The reader in the data phase of a stream: `a` is the timestamp given last and
`c` the slot of the piece at hand. -/
structure Streaming (scale delta a c : Nat) (r : Reader) : Prop where
  between : Between r
  stat : r.stat = .needFlvData
  first : r.gotFirstDataTag = true
  cutScale : r.cutScale = scale
  deltaLt : r.flvTagTsDelta < 2 ^ 32
  delta : r.flvTagTsDelta % 2 ^ 31 = delta % 2 ^ 31
  stamp : r.flvTagTimestamp = a
  slot : r.curPieceTs = c

/-- An audio or video tag of a size that is read. -/
def Playable (t : Tag) : Prop := IsMedia t.head ∧ t.body.length ≤ maxReadingSize

/-- The tag `t` of the stream comes, and is given the timestamp `b`. -/
structure Arrives (scale delta a c b : Nat) (r : Reader) (t : Tag) : Prop where
  stream : Streaming scale delta a c r
  two_le : 2 ≤ scale
  last : a < 2 ^ 31
  slot : c < 2 ^ 31
  playable : Playable t
  source : getTagTs t.head < 2 ^ 31
  given : (getTagTs t.head + delta) % 2 ^ 31 = b
  ne : b ≠ a

namespace Arrives

variable {scale delta a b c : Nat} {t : Tag}

theorem lt (h : Arrives scale delta a c b r t) : b < 2 ^ 31 := by
  rw [← h.given]
  exact Nat.mod_lt _ (by decide)

/-- The timestamp and the offset given to the tag. -/
theorem placed (h : Arrives scale delta a c b r t) : (placeTag (holding r t.head)).flvTagTimestamp = b ∧
    (placeTag (holding r t.head)).flvTagTsDelta < 2 ^ 32 ∧
    (placeTag (holding r t.head)).flvTagTsDelta % 2 ^ 31 = delta % 2 ^ 31 := by
  have hs := h.stream
  have hb := h.given
  have hsum : (getTagTs t.head + r.flvTagTsDelta) % 2 ^ 31 = b := by
    have := hs.delta
    omega
  obtain ⟨h₁, h₂, h₃⟩ := placeTag_given (r := holding r t.head) hs.first (hs.stamp ▸ h.last) hs.deltaLt h.source
    (by rw [show (holding r t.head).flvTagTimestamp = a from hs.stamp]; exact hsum ▸ h.ne)
  exact ⟨h₁.trans hsum, h₂, h₃.trans hs.delta⟩

theorem cutScale (h : Arrives scale delta a c b r t) : (placeTag (holding r t.head)).cutScale = scale :=
  (cutScale_of_config (placeTag_config (holding r t.head))).trans h.stream.cutScale

/-- The slot of the tag, and the one it is compared with. -/
theorem slots (h : Arrives scale delta a c b r t) :
    (placeTag (holding r t.head)).curFlvTagTs = b / scale ∧ (placeTag (holding r t.head)).curPieceTs = c := by
  obtain ⟨hcur, hpiece⟩ := placeTag_slot (holding r t.head)
  refine ⟨?_, ?_⟩
  · rw [hcur, h.placed.1, ← h.stream.cutScale]
    rfl
  · have hc' : (holding r t.head).curPieceTs = c := h.stream.slot
    have := h.slot
    rw [hpiece, hc', if_neg]
    unfold noPieceTs
    omega

theorem slotAdvances_iff (h : Arrives scale delta a c b r t) :
    slotAdvances (placeTag (holding r t.head)) ↔ Detected scale c b := by
  have hi := Cutter.slotAdvances_iff (r := placeTag (holding r t.head)) (by rw [h.slots.2]; exact h.slot)
    (by rw [h.placed.1]; exact h.lt) (by rw [h.cutScale]; exact h.two_le) (by rw [h.slots.1, h.placed.1, h.cutScale])
  rwa [h.cutScale, h.slots.2, h.placed.1] at hi

/-- The header of the tag is appended, with `u` behind it. -/
theorem appended (h : Arrives scale delta a c b r t) {u : Reader} {cs : List Call}
    (he : parse (holding r t.head) = ⟨appendTagHead u, cs, true⟩) (hm : memory u = memory (placeTag (holding r t.head)))
    (hst : u.stat = .needFlvData) (hscale : u.cutScale = scale) (hcs : Call.readerError ∉ cs) :
    Streaming scale delta b u.curPieceTs (readTag r t).1 ∧ Call.readerError ∉ (readTag r t).2 := by
  obtain ⟨hstamp, hlt, hmod⟩ := h.placed
  obtain ⟨hk, hk', hk''⟩ := flvDataTagbody_keeps (holding (appendTagHead u) t.body)
  have hk : memory (flvDataTagbody (holding (appendTagHead u) t.body)).reader = memory (placeTag (holding r t.head)) :=
    hk.trans hm
  have hstat : (flvDataTagbody (holding (appendTagHead u) t.body)).reader.stat = .needFlvData :=
    (flvDataTagbody_stat _).trans hst
  rw [readTag_appended h.stream.between h.playable.2 he hst]
  refine ⟨⟨between_receive fun e => ?_, hstat, ?_, hk''.trans hscale, ?_, ?_, ?_, hk'⟩, ?_⟩
  · cases e.symm.trans hstat
  · exact (congrArg (·.2.2) hk).trans (gotFirstDataTag_placeTag _)
  · exact (congrArg (·.2.1) hk).trans_lt hlt
  · exact (congrArg (·.2.1 % 2 ^ 31) hk).trans hmod
  · exact (congrArg (·.1) hk).trans hstamp
  · intro e
    rcases List.mem_append.mp e with e | e
    · exact hcs e
    · exact (List.mem_append.mp e).elim (readerError_not_mem_dataTag _) (readerError_not_mem_insertEmptyPieces _)

/-- The reader goes on behind a tag in slot 0 or at or behind the slot of the piece. -/
theorem next (h : Arrives scale delta a c b r t) (hnear : c ≤ b / scale ∨ b / scale = 0) :
    Streaming scale delta b (if Detected scale c b then b / scale else c) (readTag r t).1 ∧
      Call.readerError ∉ (readTag r t).2 := by
  obtain ⟨hcur, hpiece⟩ := h.slots
  have hst := (Stamps.placeTag (holding r t.head)).stat.trans h.stream.stat
  have hp := parse_mediaHead (r := holding r t.head) ⟨⟨h.stream.stat, h.stream.between.readingStat⟩, h.playable.1⟩
  by_cases hd : Detected scale c b
  · have hcs : Call.readerError ∉ (advanceSlot (placeTag (holding r t.head))).2 := by
      rcases advanceSlot_cases (placeTag (holding r t.head)) with ⟨-, e, -⟩ | ⟨-, e, -⟩
      · rw [e]; simp
      · rw [e]; simp
    have hpc : (advanceSlot (placeTag (holding r t.head))).1.curPieceTs = b / scale := by
      rw [← hcur]
      unfold advanceSlot
      split <;> rfl
    have hmem : memory (advanceSlot (placeTag (holding r t.head))).1 = memory (placeTag (holding r t.head)) := by
      unfold advanceSlot
      split <;> rfl
    rw [if_pos hd, ← hpc]
    exact h.appended (hp.trans (flvDataTaghead_advances h.playable.1 (h.slotAdvances_iff.mpr hd))) hmem
      ((advanceSlot_frame _).2.2.1.trans hst) ((cutScale_of_config (advanceSlot_config _)).trans h.cutScale) hcs
  · have hn : ¬ slotAdvances (placeTag (holding r t.head)) := fun e => hd (h.slotAdvances_iff.mp e)
    have hlt : b / scale < 2 ^ 31 := Nat.lt_of_le_of_lt (Nat.div_le_self _ _) h.lt
    have hcut := cutTag_of_near (by rw [hpiece]; exact h.slot) (by rw [hcur]; exact hlt) (by rw [hpiece, hcur]; exact hnear) hn
    have he : flvDataTaghead (holding r t.head) = ⟨appendTagHead (placeTag (holding r t.head)), [], true⟩ := by
      have e : flvDataTaghead (holding r t.head) = _ := if_pos h.playable.1
      rw [e, hcut]
    rw [if_neg hd, ← hpiece]
    exact h.appended (hp.trans he) rfl hst h.cutScale (by simp)

end Arrives

end

/-! ## Streams behind a wrap -/

/-- Where the stream is: `c` is the slot of the piece at hand, and `n` slot advances
have been detected in the cut interval of `a`. In the first one behind a wrap at
`p` there is none until it is past that of `p`. -/
inductive WrapPhase (scale a : Nat) : Option Nat → (c n : Nat) → Prop
  | steady : WrapPhase scale a none (a / scale) 1
  | past {p : Nat} : a < scale → Past scale p a → WrapPhase scale a (some p) 0 1
  | short {p : Nat} : a < scale → p < 2 ^ 31 → 2 ^ 31 < p + scale → ¬ Past scale p a → WrapPhase scale a (some p) (p / scale) 0

section
variable {scale a b p n : Nat} {k : Nat} (hk : 1 ≤ k) (hs : scale = k * 1000) (hl : scale < 2 ^ 28)

include hl in
/-- The slot before a wrap is not 0. -/
theorem slot_pos (h : 2 ^ 31 < p + scale) (h₀ : 0 < scale) : 0 < p / scale := by
  rw [Nat.div_pos_iff]
  omega

include hk hs hl in
/-- Behind a wrap the first cut interval is compared with the slot before. -/
theorem detected_short (hb : b < scale) (hp : p < 2 ^ 31) (h : 2 ^ 31 < p + scale) :
    Detected scale (p / scale) b ↔ Past scale p b := by
  have h₀ : b / scale = 0 := Nat.div_eq_of_lt hb
  have hpos := slot_pos hl h (by omega)
  unfold Detected Past
  rw [h₀, ← last_slot hk hs hp h]
  constructor
  · rintro (hc | ⟨-, hc, hd⟩)
    · omega
    · exact ⟨hc.1, hd⟩
  · rintro ⟨hc, hd⟩
    exact .inr ⟨hpos, ⟨hc, by decide⟩, hd⟩

theorem detected_steady (h : a ≤ b) : Detected scale (a / scale) b ↔ a / scale ≠ b / scale := by
  have hle : a / scale ≤ b / scale := Nat.div_le_div_right h
  unfold Detected
  omega

theorem Past.mono (h : Past scale p a) (hab : a ≤ b) : Past scale p b :=
  ⟨h.1, h.2.trans_le (Nat.div_le_div_right (by omega))⟩

theorem WrapPhase.slot_lt {wrapped : Option Nat} {c : Nat} (h : WrapPhase scale a wrapped c n) (ha : a < 2 ^ 31) : c < 2 ^ 31 := by
  cases h with
  | steady => exact Nat.lt_of_le_of_lt (Nat.div_le_self _ _) ha
  | past => decide
  | short _ hp => exact Nat.lt_of_le_of_lt (Nat.div_le_self _ _) hp

end

/-- The stream survives: no error, and one slot advance in each cut interval. -/
def GoesThrough (k n : Nat) (r : Reader) (ts : List Tag) : Prop :=
  Call.readerError ∉ (content.run r (requests ts)).2 ∧ OnePerSlot k n (slotTrace r ts)

namespace Arrives

variable {scale delta a b c n : Nat} {r : Reader} {t : Tag} {ts : List Tag}

theorem slotTrace_cons (h : Arrives scale delta a c b r t) :
    slotTrace r (t :: ts) = (b / scale, decide (Detected scale c b)) :: slotTrace (readTag r t).1 ts := by
  rw [slotTrace, h.slots.1, decide_eq_decide.mpr h.slotAdvances_iff]

/-- A tag at which the reader goes on. -/
theorem survives_cons (h : Arrives scale delta a c b r t) (hnear : c ≤ b / scale ∨ b / scale = 0) (m : Nat) :
    GoesThrough m n r (t :: ts) ↔
      if b / scale = m then GoesThrough m (n + (decide (Detected scale c b)).toNat) (readTag r t).1 ts
      else n = 1 ∧ GoesThrough (b / scale) (decide (Detected scale c b)).toNat (readTag r t).1 ts := by
  obtain ⟨-, hcalls⟩ := h.next hnear
  have herr : Call.readerError ∉ (content.run r (requests (t :: ts))).2 ↔
      Call.readerError ∉ (content.run (readTag r t).1 (requests ts)).2 := by
    rw [run_requests_cons]
    show Call.readerError ∉ (readTag r t).2 ++ _ ↔ _
    rw [List.mem_append, not_or]
    exact ⟨fun e => e.2, fun e => ⟨hcalls, e⟩⟩
  unfold GoesThrough
  rw [herr, h.slotTrace_cons, OnePerSlot]
  split
  · rfl
  · exact and_left_comm

/-- A tag in the cut interval of the one before: slot advances are counted together. -/
theorem survives_same (h : Arrives scale delta a c b r t) (hnear : c ≤ b / scale ∨ b / scale = 0)
    (hsame : b / scale = a / scale) {d : Bool} (hd : Detected scale c b ↔ d = true) :
    GoesThrough (a / scale) n r (t :: ts) ↔ GoesThrough (b / scale) (n + d.toNat) (readTag r t).1 ts := by
  have e : decide (Detected scale c b) = d := Bool.eq_iff_iff.mpr (by rw [decide_eq_true_iff]; exact hd)
  rw [h.survives_cons hnear, if_pos hsame, e, hsame]

/-- A tag in another one, behind one with its slot advance. -/
theorem survives_other (h : Arrives scale delta a c b r t) (hnear : c ≤ b / scale ∨ b / scale = 0)
    (hother : b / scale ≠ a / scale) {d : Bool} (hd : Detected scale c b ↔ d = true) :
    GoesThrough (a / scale) 1 r (t :: ts) ↔ GoesThrough (b / scale) d.toNat (readTag r t).1 ts := by
  have e : decide (Detected scale c b) = d := Bool.eq_iff_iff.mpr (by rw [decide_eq_true_iff]; exact hd)
  rw [h.survives_cons hnear, if_neg hother, e]
  exact and_iff_right rfl

end Arrives

section
variable {scale delta a b c n : Nat} {r : Reader} {t : Tag} {ts : List Tag} {bs : List Nat}

/-- What is left to say of a stream behind a tag. -/
def GoesOn (scale c b : Nat) (r : Reader) (ts : List Tag) (bs : List Nat) : Prop :=
  (c ≤ b / scale ∨ b / scale = 0) → ∀ wrapped n, WrapPhase scale b wrapped (if Detected scale c b then b / scale else c) n →
    (GoesThrough (b / scale) n r ts ↔ Recognised scale wrapped b bs)

/-- The slot advance at a wrap is detected at once, or not yet. -/
theorem survives_wrap {k : Nat} (hk : 1 ≤ k) (hs : scale = k * 1000) (hl : scale < 2 ^ 28)
    (h : Arrives scale delta a (a / scale) b r t) (hba : b < a) (hlt : (b + 2 ^ 31 - a) % 2 ^ 31 < scale)
    (hgo : GoesOn scale (a / scale) b (readTag r t).1 ts bs) :
    GoesThrough (a / scale) 1 r (t :: ts) ↔ Recognised scale none a (b :: bs) := by
  have ha := h.last
  have hwrap : 2 ^ 31 < a + scale := by omega
  have hbs : b < scale := by omega
  have h₀ : b / scale = 0 := Nat.div_eq_of_lt hbs
  have hpos := slot_pos hl hwrap (by omega)
  have hdet := detected_short hk hs hl hbs ha hwrap
  rw [Recognised, if_pos hba, h.survives_other (.inr h₀) (by omega) (d := decide (Past scale a b)) (by rw [hdet, decide_eq_true_iff])]
  by_cases hpast : Past scale a b
  · rw [decide_eq_true hpast]
    apply hgo (.inr h₀) _ _
    rw [if_pos (hdet.mpr hpast), h₀]
    exact .past hbs hpast
  · rw [decide_eq_false hpast]
    apply hgo (.inr h₀) _ _
    rw [if_neg (mt hdet.mp hpast)]
    exact .short hbs ha hwrap hpast

/-- Away from a wrap a slot advance is detected where the slot grows. -/
theorem survives_steady (h : Arrives scale delta a (a / scale) b r t) (hab : a < b)
    (hgo : GoesOn scale (a / scale) b (readTag r t).1 ts bs) :
    GoesThrough (a / scale) 1 r (t :: ts) ↔ Recognised scale none a (b :: bs) := by
  have hdet := @detected_steady scale a b hab.le
  have hnear : a / scale ≤ b / scale := Nat.div_le_div_right hab.le
  have hrest : Recognised scale none a (b :: bs) ↔ Recognised scale none b bs := by
    rw [Recognised, if_neg (by omega)]
    split
    · rfl
    · exact and_iff_right fun p e => by cases e
  rw [hrest]
  by_cases hsame : b / scale = a / scale
  · have hd : ¬ Detected scale (a / scale) b := fun e => hdet.mp e hsame.symm
    rw [h.survives_same (.inl hnear) hsame (d := false) (by simp [hd])]
    apply hgo (.inl hnear) _ _
    rw [if_neg hd, ← hsame]
    exact .steady
  · have hd : Detected scale (a / scale) b := hdet.mpr fun e => hsame e.symm
    rw [h.survives_other (.inl hnear) hsame (d := true) (by simp [hd])]
    apply hgo (.inl hnear) _ _
    rw [if_pos hd]
    exact .steady

/-- Behind the slot advance at a wrap. -/
theorem survives_past {p : Nat} (h : Arrives scale delta a 0 b r t) (has : a < scale) (hpast : Past scale p a) (hab : a < b)
    (hgo : GoesOn scale 0 b (readTag r t).1 ts bs) :
    GoesThrough (a / scale) 1 r (t :: ts) ↔ Recognised scale (some p) a (b :: bs) := by
  have hnear : 0 ≤ b / scale ∨ b / scale = 0 := .inl (Nat.zero_le _)
  have ha₀ : a / scale = 0 := Nat.div_eq_of_lt has
  rw [Recognised, if_neg (by omega)]
  by_cases hbs : b < scale
  · have h₀ : b / scale = 0 := Nat.div_eq_of_lt hbs
    have hd : ¬ Detected scale 0 b := by
      unfold Detected
      omega
    rw [if_pos hbs, h.survives_same hnear (h₀.trans ha₀.symm) (d := false) (by simp [hd])]
    apply hgo hnear _ _
    rw [if_neg hd]
    exact .past hbs (hpast.mono hab.le)
  · have h₁ : 0 < b / scale := Nat.div_pos (by omega) (by omega)
    have hd : Detected scale 0 b := .inl h₁
    rw [if_neg hbs, h.survives_other hnear (by omega) (d := true) (by simp [hd])]
    refine Iff.trans (hgo hnear none 1 ?_) (and_iff_right ?_).symm
    · rw [if_pos hd]
      exact .steady
    · intro q e
      cases e
      exact hpast

/-- Before the slot advance at a wrap. -/
theorem survives_short {k p : Nat} (hk : 1 ≤ k) (hs : scale = k * 1000) (hl : scale < 2 ^ 28)
    (h : Arrives scale delta a (p / scale) b r t) (has : a < scale) (hp : p < 2 ^ 31) (hwrap : 2 ^ 31 < p + scale)
    (hpast : ¬ Past scale p a) (hab : a < b) (hgo : GoesOn scale (p / scale) b (readTag r t).1 ts bs) :
    GoesThrough (a / scale) 0 r (t :: ts) ↔ Recognised scale (some p) a (b :: bs) := by
  have ha₀ : a / scale = 0 := Nat.div_eq_of_lt has
  rw [Recognised, if_neg (by omega)]
  by_cases hbs : b < scale
  · have h₀ : b / scale = 0 := Nat.div_eq_of_lt hbs
    have hdet := detected_short hk hs hl hbs hp hwrap
    rw [if_pos hbs, h.survives_same (.inr h₀) (h₀.trans ha₀.symm) (d := decide (Past scale p b))
      (by rw [hdet, decide_eq_true_iff])]
    by_cases hpast' : Past scale p b
    · rw [decide_eq_true hpast']
      apply hgo (.inr h₀) _ _
      rw [if_pos (hdet.mpr hpast'), h₀]
      exact .past hbs hpast'
    · rw [decide_eq_false hpast']
      apply hgo (.inr h₀) _ _
      rw [if_neg (mt hdet.mp hpast')]
      exact .short hbs hp hwrap hpast'
  · -- the cut interval behind the wrap is left without a slot advance
    have h₁ : 0 < b / scale := Nat.div_pos (by omega) (by omega)
    rw [if_neg hbs]
    constructor
    · rintro ⟨-, hone⟩
      rw [h.slotTrace_cons, OnePerSlot, if_neg (by rw [ha₀]; exact h₁.ne')] at hone
      cases hone.1
    · rintro ⟨hall, -⟩
      exact absurd (hall _ rfl) hpast

end

/-- A stream survives if and only if its wraps are recognised. -/
theorem survives_iff {scale delta k : Nat} (hk : 1 ≤ k) (hs : scale = k * 1000) (hl : scale < 2 ^ 28) {ts : List Tag} :
    ∀ {r : Reader} {wrapped : Option Nat} {a c n : Nat}, Streaming scale delta a c r → WrapPhase scale a wrapped c n → a < 2 ^ 31 →
      (∀ t ∈ ts, Playable t ∧ getTagTs t.head < 2 ^ 31) → Advancing scale a (given delta ts) →
      (GoesThrough (a / scale) n r ts ↔ Recognised scale wrapped a (given delta ts)) := by
  induction ts with
  | nil =>
    intro r wrapped a c n h hph ha hts hadv
    have hn : n ≤ 1 := by cases hph <;> decide
    exact ⟨fun _ => trivial, fun _ => ⟨by simp [requests, Receiver.run], hn⟩⟩
  | cons t ts ih =>
    intro r wrapped a c n h hph ha hts hadv
    obtain ⟨b, hgiven⟩ : ∃ b, (getTagTs t.head + delta) % 2 ^ 31 = b := ⟨_, rfl⟩
    have hcons : given delta (t :: ts) = b :: given delta ts := by rw [← hgiven]; rfl
    rw [hcons] at hadv ⊢
    obtain ⟨hb, hpos, hlt, hadv⟩ := hadv
    obtain ⟨hp, ht⟩ := hts t (List.mem_cons_self ..)
    have hne : b ≠ a := fun e => by
      rw [e] at hpos
      omega
    have har : Arrives scale delta a c b r t := ⟨h, by omega, ha, hph.slot_lt ha, hp, ht, hgiven, hne⟩
    have hgo : GoesOn scale c b (readTag r t).1 ts (given delta ts) :=
      fun hnear _ _ hph' => ih (har.next hnear).1 hph' hb (fun t ht => hts t (List.mem_cons_of_mem _ ht)) hadv
    cases hph with
    | steady =>
      rcases Nat.lt_or_gt_of_ne hne with hba | hab
      · exact survives_wrap hk hs hl har hba hlt hgo
      · exact survives_steady har hab hgo
    | past has hpast => exact survives_past har has hpast (by omega) hgo
    | short has hp' hwrap hpast => exact survives_short hk hs hl har has hp' hwrap hpast (by omega) hgo

/-- The reader between two tags of a stream: the last one came with the timestamp
`source`, and its slot is that of the piece at hand. -/
structure OnStream (pieceScale source : Nat) (r : Reader) : Prop where
  between : Between r
  stat : r.stat = .needFlvData
  first : r.gotFirstDataTag = true
  cutScale : r.cutScale = pieceScale * 1000
  delta : r.flvTagTsDelta < 2 ^ 32
  sourceLt : source < 2 ^ 31
  stamp : r.flvTagTimestamp = (source + r.flvTagTsDelta) % 2 ^ 31
  slot : r.curPieceTs = r.flvTagTimestamp / r.cutScale

/-- A stream of audio and video tags whose timestamps advance in steps smaller than
one cut interval, with any offset: there is no `ReaderError`, and one slot advance is
detected in each cut interval, if and only if whenever the timestamps given leave the
first cut interval behind a wrap, the pieces have at most five seconds and the last
tag in that interval is past the one that the wrap interrupts. -/
theorem wrap_survived_iff {r : Reader} {pieceScale source : Nat} {ts : List Tag} (hk : 1 ≤ pieceScale)
    (hl : pieceScale * 1000 < 2 ^ 28) (h : OnStream pieceScale source r) (hts : ∀ t ∈ ts, Playable t)
    (hadv : Advancing (pieceScale * 1000) source (ts.map fun t => getTagTs t.head)) :
    (Call.readerError ∉ (content.run r (requests ts)).2 ∧
      OnePerSlot (r.flvTagTimestamp / (pieceScale * 1000)) 1 (slotTrace r ts)) ↔
    Recognised (pieceScale * 1000) none r.flvTagTimestamp (given r.flvTagTsDelta ts) := by
  have hstream : Streaming (pieceScale * 1000) r.flvTagTsDelta r.flvTagTimestamp (r.flvTagTimestamp / (pieceScale * 1000)) r :=
    ⟨h.between, h.stat, h.first, h.cutScale, h.delta, rfl, rfl, by rw [h.slot, h.cutScale]⟩
  have ha : r.flvTagTimestamp < 2 ^ 31 := by
    rw [h.stamp]
    exact Nat.mod_lt _ (by decide)
  refine survives_iff hk rfl hl hstream .steady ha (fun t ht => ⟨hts t ht, source_lt hadv ht⟩) ?_
  rw [h.stamp]
  exact advancing_given h.sourceLt hadv

/-! ## Two streams -/

instance decidableAdvancing (scale : Nat) : (a : Nat) → (bs : List Nat) → Decidable (Advancing scale a bs)
  | _, [] => isTrue trivial
  | _, b :: bs =>
    have := decidableAdvancing scale b bs
    inferInstanceAs (Decidable (_ ∧ _ ∧ _ ∧ _))

instance decidableRecognised (scale : Nat) : (w : Option Nat) → (a : Nat) → (bs : List Nat) → Decidable (Recognised scale w a bs)
  | _, _, [] => isTrue trivial
  | w, a, b :: bs =>
    have := decidableRecognised scale (some a) b bs
    have := decidableRecognised scale w b bs
    have := decidableRecognised scale none b bs
    inferInstanceAs (Decidable (if b < a then _ else if b < scale then _ else _))

instance (t : Tag) : Decidable (Playable t) := inferInstanceAs (Decidable (_ ∧ _))

instance (r : Reader) : Decidable (Between r) :=
  decidable_of_iff (r.op = .receiving 0 ∧ r.readingStat = .flvTaghead ∧ r.readingSize = flvTagheaderTSize ∧
      r.readingBuffer.length = flvTagheaderTSize ∧ (r.stat = .needHead → r.isHeaderOver = false))
    ⟨fun ⟨h₁, h₂, h₃, h₄, h₅⟩ => ⟨h₁, h₂, h₃, h₄, h₅⟩, fun h => ⟨h.op, h.readingStat, h.readingSize, h.length, h.headerOver⟩⟩

instance (k s : Nat) (r : Reader) : Decidable (OnStream k s r) :=
  decidable_of_iff (Between r ∧ r.stat = .needFlvData ∧ r.gotFirstDataTag = true ∧ r.cutScale = k * 1000 ∧
      r.flvTagTsDelta < 2 ^ 32 ∧ s < 2 ^ 31 ∧ r.flvTagTimestamp = (s + r.flvTagTsDelta) % 2 ^ 31 ∧
      r.curPieceTs = r.flvTagTimestamp / r.cutScale)
    ⟨fun ⟨h₁, h₂, h₃, h₄, h₅, h₆, h₇, h₈⟩ => ⟨h₁, h₂, h₃, h₄, h₅, h₆, h₇, h₈⟩,
      fun h => ⟨h.between, h.stat, h.first, h.cutScale, h.delta, h.sourceLt, h.stamp, h.slot⟩⟩

/-- A connection with both heads and then audio tags at these times. -/
def playing (pieceScale mediaTs : Nat) (times : List Nat) : Reader :=
  (content.run (connect (startReader ['u'] false true pieceScale mediaTs))
    (flvHeader :: requests (heads ++ times.map audio))).1

/-- Pieces of one second, and an offset that puts the stream just before the wrap. -/
theorem wrap_survived_iff_offset :
    Call.readerError ∉ (content.run (playing 1 (2 ^ 31 - 3000) [10, 500]) (requests ([1300, 2100, 2900, 3700].map audio))).2 ∧
    OnePerSlot ((playing 1 (2 ^ 31 - 3000) [10, 500]).flvTagTimestamp / 1000) 1
      (slotTrace (playing 1 (2 ^ 31 - 3000) [10, 500]) ([1300, 2100, 2900, 3700].map audio)) :=
  (@wrap_survived_iff (playing 1 (2 ^ 31 - 3000) [10, 500]) 1 500 ([1300, 2100, 2900, 3700].map audio) (by decide)
    (by decide) (by decide +kernel) (by decide +kernel) (by decide +kernel)).mpr (by decide +kernel)

/-- Pieces of six seconds: a stream through the wrap, and a `ReaderError` when it
leaves the first cut interval behind it. -/
theorem wrap_error :
    (1 ≤ 6 ∧ 6 * 1000 < 2 ^ 28) ∧ OnStream 6 (2 ^ 31 - 5000) (playing 6 0 [2 ^ 31 - 5000]) ∧
    (∀ t ∈ [2 ^ 31 - 1000, 3000, 7000].map audio, Playable t) ∧
    Advancing (6 * 1000) (2 ^ 31 - 5000) (([2 ^ 31 - 1000, 3000, 7000].map audio).map fun t => getTagTs t.head) ∧
    Call.readerError ∈ (content.run (playing 6 0 [2 ^ 31 - 5000]) (requests ([2 ^ 31 - 1000, 3000, 7000].map audio))).2 := by
  refine ⟨by decide, by decide +kernel, by decide +kernel, by decide +kernel, by decide +kernel⟩

end XH.Proof.Cutter
