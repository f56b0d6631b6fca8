import Xhome.Proof.Live.FrameChunks
import Xhome.Proof.Live.Prepare

/-!
# A piece of a frame on its way to a player

A publisher's frames are fed to a player's stream in pieces. `KindInv` is the
invariant of a kind, the audio or the video. It says how far the frame under way
has come, in the channel and in the bucket, or that it is not sent at all, and
that the frames which the player has put together (`Assembly`) are whole. Each
piece keeps it, whether it is let through (`Through.kind`, `feed_send`) or left out
(`feed_skip`).
-/

namespace XH.Proof.Live

open Impl.Live Impl.Live.Connection Impl.Live.OutStream

variable {τ : Type} {si : Nat}

/-! ## Frames put together -/

/-- Frames with their times, and the one under way. -/
structure Assembly where
  frames : List (Int × List Byte)
  time : Int
  part : List Byte

/-- Some data of a frame with `total` bytes; its time is what its first data say. -/
def Assembly.add (x : Assembly) (data : List Byte) (total : Nat) (time : Int) : Assembly :=
  let time := if x.part = [] then time else x.time
  let part := x.part ++ data
  if part.length = total then ⟨x.frames ++ [(time, part)], time, []⟩ else ⟨x.frames, time, part⟩

theorem Assembly.add_part {x : Assembly} {d : List Byte} {total : Nat} (hl : x.part.length + d.length < total)
    (time : Int) : x.add d total time = ⟨x.frames, if x.part = [] then time else x.time, x.part ++ d⟩ := by
  rw [add, if_neg]
  rw [List.length_append]
  omega

theorem Assembly.add_add {x : Assembly} {d : List Byte} {total : Nat} (hd : d ≠ [])
    (hl : x.part.length + d.length < total) (d' : List Byte) (time time' : Int) :
    (x.add d total time).add d' total time' = x.add (d ++ d') total time := by
  have hne : x.part ++ d ≠ [] := fun e => hd (List.append_eq_nil_iff.mp e).2
  rw [add_part hl]
  simp only [add, if_neg hne, List.append_assoc]

/-- A player that puts together what it is handed of the stream `si`, the audio and the video. -/
def frameApp (si : Nat) : App (Bool → Assembly) where
  inNet _ i := i == si
  feedData s _ data _ totalLength absoluteTimestamp isAudio :=
    some (Function.update s isAudio ((s isAudio).add data totalLength absoluteTimestamp))
  inboundMessage s _ _ := some (s, [])

theorem foldlM_data {i : Nat} (hi : i = si) (x : Bool → Assembly) (data : List Byte) (n total : Nat) (time : Int)
    (b : Bool) (ds : List Delivery) :
    (.data i data n total time b :: ds).foldlM (deliver (frameApp si)) x =
      ds.foldlM (deliver (frameApp si)) (Function.update x b ((x b).add data total time)) := by
  subst hi
  have h : (i == i) = true := beq_self_eq_true i
  simp only [List.foldlM_cons, deliver, frameApp, h, if_true]
  rfl

/-! ## The chunks of a frame are put together -/

/-- The time that the first of these chunks has. -/
def firstTime (p : Connection τ) : List (Header × List Byte) → Int
  | [] => 0
  | x :: _ => (x.1.chooseType (p.channels x.1.ci)).2.lastOutAbsTs

section

variable {p : Connection τ} {i m n k : Nat} {f : HeaderFields} {b : Bool} {xs : List (Header × List Byte)}

/-- A chunk of the frame has data and does not complete it if another one follows. -/
theorem chunk_first (hf : FrameOn i f) {h : Header} {d : List Byte} (hk : 0 < p.outboundChunkSize)
    (hc : Counts p i f m) (hm : m < f.ml.toNat) (ha : AllAllowed p (chunksOf ((h, d) :: xs)))
    (ho : ∀ x ∈ (h, d) :: xs, OfFrame i f x.1) (hl : m + (((h, d) :: xs).flatMap (·.2)).length ≤ f.ml.toNat) :
    d ≠ [] ∧ Counts (sendChunk p h d) i f (m + d.length) ∧ (xs ≠ [] → m + d.length < f.ml.toNat) := by
  obtain ⟨rfl, rfl⟩ : h.ci = i ∧ h.hf = f := ho _ List.mem_cons_self
  obtain ⟨hal, hal'⟩ := ha
  have hpm : (p.channels h.ci).lastOutProcBytes = m := by rw [hc.procBytes, Nat.mod_eq_of_lt hm]
  have hd : d.length = min p.outboundChunkSize (h.hf.ml.toNat - m) := by rw [hal.2.2.2, chunkSizeOf, hpm]
  simp only [List.flatMap_cons, List.length_append] at hl
  have hc' := hf.counts ⟨rfl, rfl⟩ hc hm (show m + d.length ≤ h.hf.ml.toNat by omega)
  refine ⟨List.ne_nil_of_length_pos (by omega), hc', fun hne => ?_⟩
  refine Nat.lt_of_le_of_ne (by omega) fun e => ?_
  obtain ⟨x', xs, rfl⟩ := List.exists_cons_of_ne_nil hne
  have hx' : x'.1.ci = h.ci ∧ x'.1.hf = h.hf := ho _ (List.mem_cons_of_mem _ List.mem_cons_self)
  have hd' : x'.2.length = chunkSizeOf (sendChunk p h d).outboundChunkSize x'.1
      ((sendChunk p h d).channels x'.1.ci) := hal'.1.2.2.2
  rw [chunkSizeOf, hx'.1, hx'.2, hc'.procBytes, e, Nat.mod_self, sendChunk_outboundChunkSize hf.isChannel d] at hd'
  simp only [List.flatMap_cons, List.length_append] at hl
  omega

/-- The chunks of the frame that have been sent are put together to what they were cut from. -/
theorem chunks_assembled (hf : FrameOn i f) (hb : decide (f.mt = mtAudioData) = b) (hsi : f.si.toNat = si) :
    ∀ (xs : List (Header × List Byte)) (p : Connection τ) (m : Nat) (s : Bool → Assembly),
      0 < p.outboundChunkSize → Counts p i f m → m < f.ml.toNat → AllAllowed p (chunksOf xs) →
      (∀ x ∈ xs, OfFrame i f x.1) → m + (xs.flatMap (·.2)).length ≤ f.ml.toNat → (s b).part.length = m → xs ≠ [] →
      (allHandedOn p (chunksOf xs)).foldlM (deliver (frameApp si)) s =
        some (Function.update s b ((s b).add (xs.flatMap (·.2)) f.ml.toNat (firstTime p xs))) := by
  intro xs
  induction xs with
  | nil =>
    intro p m s hk hc hm ha ho hl hp hne
    exact absurd rfl hne
  | cons x xs ih =>
    intro p m s hk hc hm ha ho hl hp hne
    obtain ⟨h, d⟩ := x
    obtain ⟨hd, hc', hlt⟩ := chunk_first hf hk hc hm ha ho hl
    obtain ⟨rfl, rfl⟩ : h.ci = i ∧ h.hf = f := ho _ List.mem_cons_self
    have hcons : (allHandedOn p (chunksOf ((h, d) :: xs))).foldlM (deliver (frameApp si)) s =
        (allHandedOn (sendChunk p h d) (chunksOf xs)).foldlM (deliver (frameApp si))
          (Function.update s b ((s b).add d h.hf.ml.toNat (firstTime p ((h, d) :: xs)))) := by
      rw [← hb]
      exact foldlM_data hsi ..
    rw [hcons]
    by_cases hxs : xs = []
    · subst hxs
      rw [List.flatMap_cons, List.flatMap_nil, List.append_nil]
      rfl
    · have hlt := hlt hxs
      have hpart : (s b).part.length + d.length < h.hf.ml.toNat := by omega
      simp only [List.flatMap_cons, List.length_append] at hl
      have hk' : 0 < (sendChunk p h d).outboundChunkSize := by
        rw [sendChunk_outboundChunkSize hf.isChannel d]
        exact hk
      rw [ih (sendChunk p h d) (m + d.length) _ hk' hc' hlt ha.2 (fun y hy => ho y (List.mem_cons_of_mem _ hy)) (by omega)
        ?_ hxs, Function.update_idem, Function.update_self, List.flatMap_cons, Assembly.add_add hd hpart]
      rw [Function.update_self, Assembly.add_part hpart, List.length_append, hp]

/-- The time of the chunks stays what the first of them says. -/
theorem firstTime_stays (hf : FrameOn i f) :
    ∀ (xs : List (Header × List Byte)) (p : Connection τ) (m : Nat), 0 < p.outboundChunkSize → Counts p i f m →
      m < f.ml.toNat → AllAllowed p (chunksOf xs) → (∀ x ∈ xs, OfFrame i f x.1) →
      m + (xs.flatMap (·.2)).length ≤ f.ml.toNat → xs ≠ [] →
      ((sendAll p (chunksOf xs)).channels i).lastOutAbsTs = firstTime p xs ∧
        ((sendAll p (chunksOf xs)).channels i).lastOutStreamId = f.si := by
  intro xs
  induction xs with
  | nil =>
    intro p m hk hc hm ha ho hl hne
    exact absurd rfl hne
  | cons x xs ih =>
    intro p m hk hc hm ha ho hl hne
    obtain ⟨h, d⟩ := x
    obtain ⟨hd, hc', hlt⟩ := chunk_first hf hk hc hm ha ho hl
    obtain ⟨rfl, rfl⟩ : h.ci = i ∧ h.hf = f := ho _ List.mem_cons_self
    have hch : (sendChunk p h d).channels h.ci = sentTo h (p.channels h.ci) (h.chooseType (p.channels h.ci)).1.ht
        ((m + d.length) % h.hf.ml.toNat) := by
      rw [sendChunk_channels hf.isChannel, hc.procBytes, Nat.mod_eq_of_lt hm]
    obtain ⟨hty, ia, time, hcs⟩ := exists_chosen h (p.channels h.ci)
    have hsid : ((sendChunk p h d).channels h.ci).lastOutStreamId = h.hf.si := by
      rw [hch]
      simp only [sentTo, hcs.eq]
    have habs : ((sendChunk p h d).channels h.ci).lastOutAbsTs = firstTime p ((h, d) :: xs) := by
      rw [hch]
      rfl
    by_cases hxs : xs = []
    · subst hxs
      exact ⟨habs, hsid⟩
    · have hlt' := hlt hxs
      have hk' : 0 < (sendChunk p h d).outboundChunkSize := by
        rw [sendChunk_outboundChunkSize hf.isChannel d]
        exact hk
      simp only [List.flatMap_cons, List.length_append] at hl
      obtain ⟨h₁, h₂⟩ := ih (sendChunk p h d) (m + d.length) hk' hc' hlt' ha.2
        (fun y hy => ho y (List.mem_cons_of_mem _ hy)) (by omega) hxs
      refine ⟨h₁.trans ?_, h₂⟩
      obtain ⟨x', xs, rfl⟩ := List.exists_cons_of_ne_nil hxs
      obtain ⟨hx₁, hx₂⟩ : x'.1.ci = h.ci ∧ x'.1.hf = h.hf := ho _ (List.mem_cons_of_mem _ List.mem_cons_self)
      have hpos : ((sendChunk p h d).channels h.ci).lastOutProcBytes ≠ 0 := by
        rw [hc'.procBytes, Nat.mod_eq_of_lt hlt']
        have := List.length_pos_iff.mpr hd
        omega
      rw [← habs, firstTime, hx₁, chooseType_continue (by rw [hsid, hx₂]) hpos]

end

/-! ## The pieces of frames -/

/-- The frame of a kind that is under way: the bytes that have been fed, of how many. -/
abbrev Progress := Option (Nat × Nat)

/-- `f` is the next piece of the frame under way, or the first one of a frame. -/
structure Piece (g : Progress) (f : Feed) : Prop where
  total_lt : f.totalLength < 2 ^ 24
  le : f.processedLength + f.data.length ≤ f.totalLength
  data : f.data = [] → f.totalLength = 0
  start : g = none → f.processedLength = 0
  next : ∀ n total, g = some (n, total) → f.processedLength = n ∧ f.totalLength = total

def after (f : Feed) : Progress :=
  if f.processedLength + f.data.length = f.totalLength then none
  else some (f.processedLength + f.data.length, f.totalLength)

/-- What the publisher's side sees to: pieces of one frame after the other, what
sets a codec up in one piece, and pieces of the size of chunks where the stream
sends them as they are. -/
structure Fits (s : OutStream) (g : Progress) (f : Feed) : Prop where
  piece : Piece g f
  setup : f.processedLength = 0 → isSetup f = true → f.data.length = f.totalLength
  chunk : s.feederChunkSize = s.chunkSize → f.data.length = min s.chunkSize (f.totalLength - f.processedLength)

/-! ## What the stream keeps of a kind -/

/-- The header of a track is one of its kind. -/
structure OnTrack (si : Nat) (b : Bool) (t : Track) : Prop where
  isChannel : IsChannel t.channel
  ci : t.header.ci = t.channel
  mt : t.header.hf.mt = if b then mtAudioData else mtVideoData
  stream : t.header.hf.si.toNat = si
  stream_lt : si < maxStreamsCount

/-- How far the frame under way has come. `sent` is what the player has of it, `fed` what has been fed. -/
inductive Stage (s : OutStream) (p : Connection τ) (b : Bool) (sent fed : List Byte) : Progress → Prop where
  | between (hb : (s.track b).bucket = []) (hi : Idle p (s.track b).channel) (hs : sent = []) (hf : fed = []) :
    Stage s p b sent fed none
  /-- What has been fed and not sent is in the bucket. -/
  | sends (n total : Nat) (h : ¬ Skips s b) (hml : (s.track b).header.hf.ml.toNat = total)
      (hc : Counts p (s.track b).channel (s.track b).header.hf sent.length) (hfed : sent ++ (s.track b).bucket = fed)
      (hb : (s.track b).bucket.length < s.chunkSize) (hn : fed.length = n) (h0 : 0 < n) (hlt : n < total) :
    Stage s p b sent fed (some (n, total))
  | skips (n total : Nat) (h : Skips s b) (hb : (s.track b).bucket = []) (hi : Idle p (s.track b).channel)
      (hs : sent = []) (hn : fed.length = n) (h0 : 0 < n) (hlt : n < total) : Stage s p b sent fed (some (n, total))

section

variable {p : Connection τ} {b : Bool} {t : Track} {f : Feed} {x : Assembly} {feederChunkSize m : Nat}

theorem OnTrack.stream_lt' (ht : OnTrack si b t) : t.header.hf.si.toNat < maxStreamsCount := by
  rw [ht.stream]
  exact ht.stream_lt

theorem frameOn_track (ht : OnTrack si b t) (hml : 0 < t.header.hf.ml.toNat) : FrameOn t.channel t.header.hf := by
  refine ⟨ht.isChannel, ?_, ht.stream_lt', hml⟩
  rw [ht.mt]
  cases b <;> decide

theorem track_kind (ht : OnTrack si b t) : decide (t.header.hf.mt = mtAudioData) = b := by
  rw [ht.mt]
  cases b <;> decide

/-- A piece that is let through has made the chunks `xs`; with it `fed` is what
has been fed of the frame, `rest` is in the bucket, and the player has `x'`. -/
structure PieceSent (p : Connection τ) (t : Track) (x x' : Assembly) (fed : List Byte)
    (xs : List (Header × List Byte)) (h : Header) (rest : List Byte) : Prop where
  allowed : AllAllowed p (chunksOf xs)
  header : OfFrame t.channel t.header.hf h
  kept : xs = [] → h = t.header ∧ x' = x
  chunkSize : (sendAll p (chunksOf xs)).outboundChunkSize = p.outboundChunkSize
  others : ∀ j ≠ t.channel, (sendAll p (chunksOf xs)).channels j = p.channels j
  time : xs ≠ [] → firstTime p xs = (t.header.chooseType (p.channels t.channel)).2.lastOutAbsTs ∧
    ((sendAll p (chunksOf xs)).channels t.channel).lastOutAbsTs = firstTime p xs ∧
    ((sendAll p (chunksOf xs)).channels t.channel).lastOutStreamId = t.header.hf.si ∧
    x'.time = if x.part = [] then firstTime p xs else x.time
  whole : fed.length = t.header.hf.ml.toNat → xs ≠ [] ∧ rest = [] ∧ Idle (sendAll p (chunksOf xs)) t.channel ∧
    x'.frames = x.frames ++ [(if x.part = [] then firstTime p xs else x.time, fed)] ∧ x'.part = []
  part : fed.length < t.header.hf.ml.toNat → x'.frames = x.frames ∧ x'.part ++ rest = fed ∧
    rest.length < p.outboundChunkSize ∧
    Counts (sendAll p (chunksOf xs)) t.channel t.header.hf x'.part.length ∧ (xs ≠ [] → x'.part ≠ [])

/-- A piece of a frame that has bytes. -/
theorem piece_sent (ht : OnTrack si b t) (hk : 0 < p.outboundChunkSize) (hk' : p.outboundChunkSize < 2 ^ 32)
    (hc : Counts p t.channel t.header.hf x.part.length) (hm : x.part.length < t.header.hf.ml.toNat)
    (hb : t.bucket.length < p.outboundChunkSize)
    (hl : x.part.length + (t.bucket.length + f.data.length) ≤ t.header.hf.ml.toNat)
    (hfast : feederChunkSize = p.outboundChunkSize → t.bucket = [] →
      f.data.length = min p.outboundChunkSize (t.header.hf.ml.toNat - x.part.length))
    {s : Bool → Assembly} (hx : s b = x) :
    ∃ xs h rest x', p.chunkAndSend p.outboundChunkSize feederChunkSize t.header t.channel t.bucket f.data =
        some (sendAll p (chunksOf xs), h, rest) ∧
      (allHandedOn p (chunksOf xs)).foldlM (deliver (frameApp si)) s = some (Function.update s b x') ∧
      PieceSent p t x x' (x.part ++ (t.bucket ++ f.data)) xs h rest := by
  have hf := frameOn_track ht (by omega)
  obtain ⟨xs, h, rest, n, he, o, hr, hfull⟩ := chunkAndSend_spec hf ⟨ht.ci, rfl⟩ hc hm hk' hb hl hfast
  have hcut := congrArg List.length o.cut
  have hsent := o.sent
  rw [List.length_append, List.length_append] at hcut
  rw [List.length_append] at hsent
  have hfed : (x.part ++ (t.bucket ++ f.data)).length = n + rest.length := by
    rw [List.length_append, List.length_append]
    omega
  by_cases hxs : xs = []
  · subst hxs
    have hcut' : rest = t.bucket ++ f.data := o.cut
    have hn : n = x.part.length := by
      rw [hcut', List.length_append] at hsent
      omega
    refine ⟨[], h, rest, x, he, ?_, o.allowed, o.header, fun _ => ⟨o.kept rfl, rfl⟩, o.chunkSize, o.others,
      fun e => absurd rfl e, fun e => ?_, fun e => ⟨rfl, ?_, hr, hc, fun e => absurd rfl e⟩⟩
    · rw [← hx, Function.update_eq_self]
      rfl
    · have := hfull (by omega)
      omega
    · rw [hcut']
  · have hlen : x.part.length + (xs.flatMap (·.2)).length ≤ t.header.hf.ml.toNat := by omega
    have hn : x.part.length + (xs.flatMap (·.2)).length = n := by omega
    obtain ⟨h₁, h₂⟩ := firstTime_stays hf xs p x.part.length hk hc hm o.allowed o.headers hlen hxs
    obtain ⟨y, ys, rfl⟩ := List.exists_cons_of_ne_nil hxs
    have hfirst : firstTime p (y :: ys) = (t.header.chooseType (p.channels t.channel)).2.lastOutAbsTs := by
      rw [firstTime, o.first y rfl, ht.ci]
    have hfold := chunks_assembled hf (track_kind ht) ht.stream _ p x.part.length s hk hc hm o.allowed o.headers hlen (by rw [hx])
      hxs
    rw [hx] at hfold
    have htime : (x.add ((y :: ys).flatMap (·.2)) t.header.hf.ml.toNat (firstTime p (y :: ys))).time =
        if x.part = [] then firstTime p (y :: ys) else x.time := by
      simp only [Assembly.add]
      split <;> rfl
    refine ⟨y :: ys, h, rest, _, he, hfold, o.allowed, o.header, fun e => absurd e hxs, o.chunkSize, o.others,
      fun _ => ⟨hfirst, h₁, h₂, htime⟩, fun e => ?_, fun e => ?_⟩
    · have hnml := hfull (by omega)
      have hrest : rest = [] := List.eq_nil_of_length_eq_zero (by omega)
      have hcut' : (y :: ys).flatMap (·.2) = t.bucket ++ f.data := by
        rw [← o.cut, hrest, List.append_nil]
      refine ⟨hxs, hrest, ?_, ?_, ?_⟩
      · rw [Idle, o.counts.procBytes, hnml, Nat.mod_self]
      · rw [hcut', Assembly.add]
        simp only [if_pos e]
      · rw [hcut', Assembly.add]
        simp only [if_pos e]
    · have hlt : x.part.length + ((y :: ys).flatMap (·.2)).length < t.header.hf.ml.toNat := by omega
      have hd := (chunk_first (h := y.1) (d := y.2) hf hk hc hm o.allowed o.headers hlen).1
      rw [Assembly.add_part hlt]
      refine ⟨rfl, ?_, hr, ?_, fun _ => ?_⟩
      · rw [List.append_assoc, o.cut]
      · rw [List.length_append, hn]
        exact o.counts
      · rw [List.flatMap_cons]
        intro e
        exact hd (List.append_eq_nil_iff.mp (List.append_eq_nil_iff.mp e).2).1

/-- A frame with no bytes is sent as a header. -/
theorem empty_sent (ht : OnTrack si b t) (hml : t.header.hf.ml = 0) (hi : Idle p t.channel) (hb : t.bucket = [])
    (hd : f.data = []) (hx₀ : x.part = []) {s : Bool → Assembly} (hx : s b = x) :
    ∃ xs h rest x', p.chunkAndSend p.outboundChunkSize feederChunkSize t.header t.channel t.bucket f.data =
        some (sendAll p (chunksOf xs), h, rest) ∧
      (allHandedOn p (chunksOf xs)).foldlM (deliver (frameApp si)) s = some (Function.update s b x') ∧
      PieceSent p t x x' (x.part ++ (t.bucket ++ f.data)) xs h rest := by
  obtain ⟨hty, ia, time, hcs⟩ := exists_chosen t.header (p.channels t.channel)
  have hidle : (p.channels t.channel).lastOutProcBytes = 0 := hi
  have hml' : t.header.hf.ml.toNat = 0 := by rw [hml]; rfl
  have hci : IsChannel t.header.ci := ht.ci ▸ ht.isChannel
  have hal : Allowed p (.chunk t.header []) := by
    refine ⟨⟨hci, fun e => ?_, fun h0 => ?_⟩, ?_, ht.stream_lt', ?_⟩
    · have := ht.stream_lt'
      rw [e] at this
      exact absurd this (by decide)
    · rw [ht.ci] at h0
      exact absurd hidle h0
    · rw [ht.mt]
      cases b <;> decide
    · rw [chunkSizeOf, hml', Nat.zero_sub, Nat.min_zero]
      rfl
  have hnoted : (noted t.header (p.channels t.channel)).lastOutProcBytes = 0 := by
    simp only [noted, hcs.eq]
    exact hidle
  have hsend : p.sendRawData t.header t.channel [] =
      (true, (t.header.chooseType (p.channels t.channel)).1, sendChunk p t.header []) := by
    have hraw : p.sendRawData t.header t.channel [] = (true, (t.header.chooseType (p.channels t.channel)).1,
        { p.setChannel t.channel (noted t.header (p.channels t.channel)) with
          outputBuffer := p.outputBuffer ++ headerBytes t.header (p.channels t.channel) }) := by
      simp only [sendRawData, writeTo_eq hci, if_true, List.append_nil]
    have hch : sentTo t.header (p.channels t.channel) (t.header.chooseType (p.channels t.channel)).1.ht 0 =
        noted t.header (p.channels t.channel) := by
      rw [← hnoted]
      rfl
    rw [hraw, sendChunk_eq hci, ht.ci, hidle, hml', List.length_nil, Nat.mod_zero, hch, List.append_nil]
  have hchan : (sendChunk p t.header []).channels t.channel =
      sentTo t.header (p.channels t.channel) (t.header.chooseType (p.channels t.channel)).1.ht 0 := by
    have h := sendChunk_channels (p := p) hci []
    rw [ht.ci, hidle, hml', List.length_nil, Nat.mod_zero] at h
    exact h
  refine ⟨[(t.header, [])], (t.header.chooseType (p.channels t.channel)).1, [],
    x.add [] t.header.hf.ml.toNat (firstTime p [(t.header, [])]), ?_, ?_, ⟨hal, trivial⟩, ?_, fun e => (List.cons_ne_nil _ _ e).elim,
    sendChunk_outboundChunkSize hci [], fun j hj => sendChunk_channels_of_ne hci [] (ht.ci ▸ hj),
    fun _ => ⟨?_, ?_, ?_, ?_⟩, fun _ => ⟨List.cons_ne_nil _ _, rfl, ?_, ?_, ?_⟩, fun e => ?_⟩
  · rw [chunkAndSend, if_pos hml, hsend, hb]
    rfl
  · rw [← hx, ← track_kind ht]
    exact foldlM_data ht.stream ..
  · rw [hcs.hf]
    exact ⟨ht.ci, rfl⟩
  · rw [firstTime, ht.ci]
  · show ((sendChunk p t.header []).channels t.channel).lastOutAbsTs = _
    rw [hchan, firstTime, ht.ci]
    rfl
  · show ((sendChunk p t.header []).channels t.channel).lastOutStreamId = _
    rw [hchan]
    simp only [sentTo, hcs.eq]
  · simp only [Assembly.add]
    split <;> rfl
  · show ((sendChunk p t.header []).channels t.channel).lastOutProcBytes = 0
    rw [hchan]
    rfl
  · simp only [Assembly.add, hx₀, hb, hd, List.append_nil, hml', List.length_nil, if_true]
  · simp only [Assembly.add, hx₀, List.append_nil, hml', List.length_nil, if_true]
  · rw [hml'] at e
    exact absurd e (Nat.not_lt_zero _)

end

/-! ## What holds of a kind all along -/

/-- The player's frames are frames that have been fed, in their order; once the
first frames are behind, with their times. -/
def Whole (steady : Prop) (x y : Assembly) : Prop :=
  ∃ zs, zs.Sublist y.frames ∧ x.frames.map (·.2) = zs.map (·.2) ∧ (steady → x.frames = zs)

theorem Whole.left {steady : Prop} {x y : Assembly} (h : Whole steady x y) {y' : Assembly} {z : Int × List Byte}
    (hy : y'.frames = y.frames ++ [z]) : Whole steady x y' := by
  obtain ⟨zs, hs, hm, ht⟩ := h
  exact ⟨zs, hy ▸ hs.trans (List.sublist_append_left ..), hm, ht⟩

theorem Whole.both {steady : Prop} {x y : Assembly} (h : Whole steady x y) {x' y' : Assembly} {t t' : Int}
    {d : List Byte} (hx : x'.frames = x.frames ++ [(t, d)]) (hy : y'.frames = y.frames ++ [(t', d)])
    (htt : steady → t = t') : Whole steady x' y' := by
  obtain ⟨zs, hs, hm, ht⟩ := h
  refine ⟨zs ++ [(t', d)], ?_, ?_, fun hst => ?_⟩
  · rw [hy]
    exact hs.append_right _
  · rw [hx, List.map_append, List.map_append, hm]
    rfl
  · rw [hx, ht hst, htt hst]

theorem Whole.same {steady : Prop} {x y x' y' : Assembly} (h : Whole steady x y) (hx : x'.frames = x.frames)
    (hy : y'.frames = y.frames) : Whole steady x' y' := by
  rw [Whole, hx, hy]
  exact h

/-- The times of a kind whose first frame is behind; `latest` is the one of its last piece. -/
structure Timed (s : OutStream) (p : Connection τ) (b : Bool) (x y : Assembly) (g : Progress) (latest : Int) :
    Prop where
  behind : (s.track b).isFirst = false
  stream : (p.channels (s.track b).channel).lastOutStreamId = (s.track b).header.hf.si
  nonneg : 0 ≤ (p.channels (s.track b).channel).lastOutAbsTs
  le : (p.channels (s.track b).channel).lastOutAbsTs ≤ latest
  begun : g ≠ none → ¬ Skips s b → x.part = [] → (s.track b).header.isAbsolute = false ∧
    (p.channels (s.track b).channel).lastOutAbsTs + (s.track b).header.hf.ts.toNat = y.time
  goes : x.part ≠ [] → x.time = y.time
  time_le : g ≠ none → y.time ≤ latest

structure KindInv (si : Nat) (steady : Prop) (latest : Int) (s : OutStream) (p : Connection τ) (b : Bool) (g : Progress)
    (x y : Assembly) : Prop where
  onTrack : OnTrack si b (s.track b)
  stage : Stage s p b x.part y.part g
  whole : Whole steady x y
  all : steady → s.canDropFrames = false → x.frames = y.frames
  timed : steady → Timed s p b x y g latest

section

variable {s s' : OutStream} {p : Connection τ} {b : Bool} {g : Progress} {f : Feed} {sent fed : List Byte}
  {x y : Assembly}

theorem Stage.length_fed (h : Stage s p b sent fed g) (hp : Piece g f) : fed.length = f.processedLength := by
  cases h with
  | between hb hi hs hf => rw [hf, hp.start rfl, List.length_nil]
  | sends n total h hml hc hfed hb hn h0 hlt => rw [hn, (hp.next n total rfl).1]
  | skips n total h hb hi hs hn h0 hlt => rw [hn, (hp.next n total rfl).1]

/-- Nothing of the frame under way has been sent. -/
theorem Stage.skipped (h : Stage s p b sent fed g) (hp : Piece g f) (hs : f.processedLength ≠ 0 → Skips s b) :
    (s.track b).bucket = [] ∧ Idle p (s.track b).channel ∧ sent = [] := by
  cases h with
  | between hb hi hs hf => exact ⟨hb, hi, hs⟩
  | sends n total h hml hc hfed hb hn h0 hlt =>
    have := (hp.next n total rfl).1
    exact absurd (hs (by omega)) h
  | skips n total h hb hi hs hn h0 hlt => exact ⟨hb, hi, hs⟩

/-- A piece that is left out. -/
theorem Stage.skip (h : Stage s p b sent fed g) (hp : Piece g f) (hs : f.processedLength ≠ 0 → Skips s b)
    (hs' : Skips s' b) (hb : (s'.track b).bucket = (s.track b).bucket)
    (hch : (s'.track b).channel = (s.track b).channel) {fed' : List Byte}
    (hfed : fed' = if (fed ++ f.data).length = f.totalLength then [] else fed ++ f.data) :
    Stage s' p b sent fed' (after f) := by
  obtain ⟨h₁, h₂, h₃⟩ := h.skipped hp hs
  have hle := hp.le
  have hlen : (fed ++ f.data).length = f.processedLength + f.data.length := by
    rw [List.length_append, h.length_fed hp]
  rw [hlen] at hfed
  rw [after]
  split at hfed
  · rename_i e
    rw [if_pos e]
    exact .between (hb.trans h₁) (hch ▸ h₂) h₃ hfed
  · rename_i e
    rw [if_neg e]
    have hpos : 0 < f.data.length := List.length_pos_iff.mpr fun e' => by
      have := hp.data e'
      omega
    exact .skips _ _ hs' (hb.trans h₁) (hch ▸ h₂) h₃ (by rw [hfed, hlen]) (by omega) (by omega)

theorem Assembly.add_eq (y : Assembly) (data : List Byte) (total : Nat) (time : Int) :
    (y.add data total time).part = (if (y.part ++ data).length = total then [] else y.part ++ data) ∧
      (y.add data total time).time = (if y.part = [] then time else y.time) ∧
      (y.add data total time).frames = if (y.part ++ data).length = total then
        y.frames ++ [(if y.part = [] then time else y.time, y.part ++ data)] else y.frames := by
  simp only [Assembly.add]
  split <;> exact ⟨rfl, rfl, rfl⟩

/-- The time of a piece for the player. -/
def timeOf (s : OutStream) (f : Feed) : Int := f.absoluteTimestamp - s.deltaTime f.isAudio + s.seekTime

/-- What feeding a piece has done to the stream and its connection. -/
structure Fed (s s' : OutStream) (p : Connection τ) (f : Feed) (xs : List (Header × List Byte)) : Prop where
  allowed : AllAllowed p (chunksOf xs)
  stream : SameStream s s'
  drops : DropsAllowed s'
  other : s'.track (!f.isAudio) = s.track (!f.isAudio)
  channel : (s'.track f.isAudio).channel = (s.track f.isAudio).channel
  chunkSize : (sendAll p (chunksOf xs)).outboundChunkSize = p.outboundChunkSize
  others : ∀ j ≠ (s.track f.isAudio).channel, (sendAll p (chunksOf xs)).channels j = p.channels j
  deltas : (s.track f.isAudio).isFirst = false →
    s'.deltaAudioTime = s.deltaAudioTime ∧ s'.deltaVideoTime = s.deltaVideoTime

theorem Stage.part_ne (h : Stage s p b sent fed g) (hp : Piece g f) (hne : fed ≠ []) : g ≠ none := by
  intro e
  subst e
  have := h.length_fed hp
  rw [hp.start rfl] at this
  exact hne (List.eq_nil_of_length_eq_zero this)

theorem dropsAllowed_of {s s' : OutStream} (hd : DropsAllowed s) (hs : SameStream s s')
    (ho : s'.track (!b) = s.track (!b))
    (ht : (s'.track b).currentFrameDropped = true → s.canDropFrames = true) : DropsAllowed s' := by
  intro b' hb'
  rw [hs.canDropFrames]
  by_cases e : b' = b
  · subst e
    exact ht hb'
  · have e' : b' = !b := by
      cases b <;> cases b' <;> first | rfl | exact absurd rfl e
    rw [e', ho] at hb'
    exact hd _ hb'

/-- A piece that is left out changes nothing that is sent. -/
theorem feed_skip {steady : Prop} {latest last : Int} (hz : s.paused = false) (hd : DropsAllowed s)
    (h : KindInv si steady latest s p f.isAudio g x y) (hp : Piece g f) (hlat : steady → latest ≤ timeOf s f)
    (hlast : last = (p.channels (s.track f.isAudio).channel).lastOutAbsTs) (he : s.prepare f last = (s', false))
    {A : Bool → Assembly} (hx : A f.isAudio = x) :
    ∃ s' xs x', s.feedData p f = some (s', sendAll p (chunksOf xs)) ∧
      (allHandedOn p (chunksOf xs)).foldlM (deliver (frameApp si)) A = some (Function.update A f.isAudio x') ∧
      Fed s s' p f xs ∧ KindInv si steady (timeOf s f) s' (sendAll p (chunksOf xs)) f.isAudio (after f) x'
        (y.add f.data f.totalLength (timeOf s f)) := by
  obtain ⟨hst, hot, hl⟩ := prepare_leftOut hd he
  have hfeed : s.feedData p f = some (s', p) := by
    rw [feedData, hz, ← hlast, he]
    rfl
  have hy := y.add_eq f.data f.totalLength (timeOf s f)
  obtain ⟨hbu, hid, hpart⟩ := h.stage.skipped hp hl.goesOn
  refine ⟨s', [], x, hfeed, ?_, ⟨trivial, hst, dropsAllowed_of hd hst hot hl.allowed, hot, hl.channel, rfl, fun _ _ => rfl,
    hl.deltas⟩, ?_⟩
  · rw [← hx, Function.update_eq_self]
    rfl
  · refine ⟨⟨hl.channel ▸ h.onTrack.isChannel, by rw [hl.header, hl.channel]; exact h.onTrack.ci,
      by rw [hl.header]; exact h.onTrack.mt, by rw [hl.header]; exact h.onTrack.stream, h.onTrack.stream_lt⟩,
      h.stage.skip hp hl.goesOn hl.skips hl.bucket hl.channel hy.1, ?_, fun hsy hc => ?_, fun hst => ?_⟩
    · by_cases e : (y.part ++ f.data).length = f.totalLength
      · exact h.whole.left (by rw [hy.2.2, if_pos e])
      · exact h.whole.same rfl (by rw [hy.2.2, if_neg e])
    · rw [hst.canDropFrames] at hc
      rcases hl.skips with e | e
      · rw [hl.isFirst, (h.timed hsy).behind] at e
        cases e
      · rw [hl.allowed e] at hc
        cases hc
    · have htm := h.timed hst
      have hle := hlat hst
      refine ⟨hl.isFirst.trans htm.behind, ?_, ?_, ?_, fun _ e => absurd hl.skips e, fun e => absurd hpart e, fun _ => ?_⟩
      · rw [hl.channel, hl.header]
        exact htm.stream
      · rw [hl.channel]
        exact htm.nonneg
      · rw [hl.channel]
        exact Int.le_trans htm.le hle
      · rw [hy.2.1]
        split
        · exact Int.le_refl _
        · rename_i hne
          exact Int.le_trans (htm.time_le (h.stage.part_ne hp hne)) hle

/-- What has been fed of the frame under way has been sent or is in the bucket. -/
theorem Stage.ready (h : Stage s p b sent fed g) (hp : Piece g f) (hk : 0 < s.chunkSize)
    (hs : f.processedLength ≠ 0 → ¬ Skips s b) {hf : HeaderFields}
    (hhf : f.processedLength ≠ 0 → hf = (s.track b).header.hf) :
    sent ++ (s.track b).bucket = fed ∧ (s.track b).bucket.length < s.chunkSize ∧
      Counts p (s.track b).channel { hf with ml := .ofNat 24 f.totalLength } sent.length := by
  cases h with
  | between hb hi hse hfe =>
    subst hse hfe
    refine ⟨hb, by rw [hb]; exact hk, Nat.zero_le _, ?_, fun e => absurd (Nat.zero_mod _) e⟩
    rw [List.length_nil, Nat.zero_mod]
    exact hi
  | sends n total hsk hml hc hfed hb hn h0 hlt =>
    obtain ⟨h₁, h₂⟩ := hp.next n total rfl
    have he : ({ hf with ml := .ofNat 24 f.totalLength } : HeaderFields) = (s.track b).header.hf := by
      rw [hhf (by omega), h₂, ← hml, BitVec.ofNat_toNat, BitVec.setWidth_eq]
    exact ⟨hfed, hb, he ▸ hc⟩
  | skips n total hsk hb hi hse hn h0 hlt =>
    obtain ⟨h₁, h₂⟩ := hp.next n total rfl
    exact absurd hsk (hs (by omega))

/-- The time of a header that says it since the last one. -/
theorem chooseType_relative {h : Header} {c : Channel} (hs : c.lastOutStreamId = h.hf.si) (ha : h.isAbsolute = false)
    (hp : c.lastOutProcBytes = 0) : (h.chooseType c).2.lastOutAbsTs = c.lastOutAbsTs + h.hf.ts.toNat := by
  simp only [Header.chooseType, if_pos hs, ha, Bool.false_eq_true, if_false, if_pos hp]

theorem relativeHeader_ts (s : OutStream) (f : Feed) {last : Int} (h0 : f.processedLength = 0)
    (hle : last ≤ timeOf s f) (hl : 0 ≤ last) (hlt : timeOf s f < 2 ^ 32) :
    last + (s.relativeHeader f last).hf.ts.toNat = timeOf s f := by
  simp only [relativeHeader, if_pos h0]
  show last + ((BitVec.ofInt 32 (timeOf s f - last)).toNat : Int) = timeOf s f
  rw [BitVec.toNat_ofInt]
  omega

end

/-! ## A piece that is let through -/

/-- The track of the piece, with the length of the frame in its header. -/
def loaded (s' : OutStream) (f : Feed) : Track := withLength (s'.track f.isAudio) f.totalLength

section

variable {s s' : OutStream} {p : Connection τ} {g : Progress} {f : Feed} {x y : Assembly} {last : Int}

theorem loaded_ml (hp : Piece g f) : (loaded s' f).header.hf.ml.toNat = f.totalLength := by
  show (BitVec.ofNat 24 f.totalLength).toNat = _
  rw [BitVec.toNat_ofNat, Nat.mod_eq_of_lt hp.total_lt]

theorem LetThrough.onTrack (hl : LetThrough s s' f last) (ht : OnTrack si f.isAudio (s.track f.isAudio)) :
    OnTrack si f.isAudio (loaded s' f) where
  isChannel := by
    show IsChannel (s'.track f.isAudio).channel
    rw [hl.channel]
    exact ht.isChannel
  ci := by
    show (s'.track f.isAudio).header.ci = (s'.track f.isAudio).channel
    rw [hl.ci, hl.channel]
    exact ht.ci
  mt := hl.mt.trans ht.mt
  stream := by
    show (s'.track f.isAudio).header.hf.si.toNat = si
    rw [hl.si]
    exact ht.stream
  stream_lt := ht.stream_lt

/-- A piece that has bytes, or a frame without any. -/
theorem loaded_sent {t : Track} {b : Bool} {feederChunkSize : Nat} (ht : OnTrack si b t) (hk : 0 < p.outboundChunkSize)
    (hk' : p.outboundChunkSize < 2 ^ 32) (hp : Piece g f) (hml : t.header.hf.ml.toNat = f.totalLength)
    (hc : Counts p t.channel t.header.hf x.part.length) (hlen : x.part.length + t.bucket.length = f.processedLength)
    (hb : t.bucket.length < p.outboundChunkSize)
    (hfast : feederChunkSize = p.outboundChunkSize →
      f.data.length = min p.outboundChunkSize (f.totalLength - f.processedLength))
    {A : Bool → Assembly} (hx : A b = x) :
    ∃ xs h rest x', p.chunkAndSend p.outboundChunkSize feederChunkSize t.header t.channel t.bucket f.data =
        some (sendAll p (chunksOf xs), h, rest) ∧
      (allHandedOn p (chunksOf xs)).foldlM (deliver (frameApp si)) A = some (Function.update A b x') ∧
      PieceSent p t x x' (x.part ++ (t.bucket ++ f.data)) xs h rest := by
  have hle := hp.le
  by_cases ht0 : f.totalLength = 0
  · have hd0 : f.data = [] := List.eq_nil_of_length_eq_zero (by omega)
    have hx0 : x.part = [] := List.eq_nil_of_length_eq_zero (by omega)
    have hb0 : t.bucket = [] := List.eq_nil_of_length_eq_zero (by omega)
    have hidle : Idle p t.channel := by
      rw [Idle, hc.procBytes, hx0, List.length_nil, Nat.zero_mod]
    have hml0 : t.header.hf.ml = 0 := BitVec.eq_of_toNat_eq (by rw [hml, ht0]; rfl)
    exact empty_sent ht hml0 hidle hb0 hd0 hx0 hx
  · have hpos : 0 < f.data.length := List.length_pos_iff.mpr fun e => ht0 (hp.data e)
    refine piece_sent ht hk hk' hc (by omega) hb (by omega) (fun e e' => ?_) hx
    rw [e', List.length_nil] at hlen
    rw [hml, hfast e]
    omega

end

/-- The piece `f` has been let through: `x` and `y` are what the player has and what
has been fed before it, `x'` is what the player has behind it. -/
structure Through (si : Nat) (s s' : OutStream) (p : Connection τ) (g : Progress) (f : Feed) (last : Int)
    (x x' y : Assembly) (xs : List (Header × List Byte)) (h : Header) (rest : List Byte) : Prop where
  piece : Piece g f
  same : SameStream s s'
  letThrough : LetThrough s s' f last
  onTrack : OnTrack si f.isAudio (loaded s' f)
  last_eq : last = (p.channels (s.track f.isAudio).channel).lastOutAbsTs
  stage : Stage s p f.isAudio x.part y.part g
  counts : Counts p (loaded s' f).channel (loaded s' f).header.hf x.part.length
  fed : x.part ++ (loaded s' f).bucket = y.part
  sent : PieceSent p (loaded s' f) x x' (y.part ++ f.data) xs h rest

/-- The stream behind the piece. -/
def behindPiece (s' : OutStream) (f : Feed) (h : Header) (rest : List Byte) : OutStream :=
  s'.setTrack f.isAudio { loaded s' f with header := h, bucket := rest }

namespace Through

variable {s s' : OutStream} {p : Connection τ} {g : Progress} {f : Feed} {last latest : Int} {x x' y : Assembly}
  {xs : List (Header × List Byte)} {h : Header} {rest : List Byte} {steady : Prop}

theorem ml (hh : Through si s s' p g f last x x' y xs h rest) : (loaded s' f).header.hf.ml.toNat = f.totalLength :=
  loaded_ml hh.piece

theorem channel (hh : Through si s s' p g f last x x' y xs h rest) :
    (loaded s' f).channel = (s.track f.isAudio).channel := hh.letThrough.channel

theorem track (s' : OutStream) (f : Feed) (h : Header) (rest : List Byte) :
    (behindPiece s' f h rest).track f.isAudio = { loaded s' f with header := h, bucket := rest } := setTrack_track ..

theorem sameStream (hh : Through si s s' p g f last x x' y xs h rest) : SameStream s (behindPiece s' f h rest) :=
  hh.same.trans (setTrack_same ..).1

theorem length_fed (hh : Through si s s' p g f last x x' y xs h rest) :
    (y.part ++ f.data).length = f.processedLength + f.data.length := by
  rw [List.length_append, hh.stage.length_fed hh.piece]

/-- What the player has is a beginning of what has been fed. -/
theorem part_nil (hh : Through si s s' p g f last x x' y xs h rest) (e : y.part = []) : x.part = [] := by
  rw [← hh.fed] at e
  exact (List.append_eq_nil_iff.mp e).1

theorem onTrack_behind (hh : Through si s s' p g f last x x' y xs h rest) :
    OnTrack si f.isAudio ((behindPiece s' f h rest).track f.isAudio) := by
  rw [track]
  exact ⟨hh.onTrack.isChannel, hh.sent.header.1, by rw [hh.sent.header.2]; exact hh.onTrack.mt,
    by rw [hh.sent.header.2]; exact hh.onTrack.stream, hh.onTrack.stream_lt⟩

/-- The frame is complete, or it is sent on. -/
theorem stage_behind (hh : Through si s s' p g f last x x' y xs h rest) (hfi : Fits s g f)
    (hck : s.chunkSize = p.outboundChunkSize) (time : Int) :
    Stage (behindPiece s' f h rest) (sendAll p (chunksOf xs)) f.isAudio x'.part (y.add f.data f.totalLength time).part
      (after f) := by
  have hy := y.add_eq f.data f.totalLength time
  have hle := hh.piece.le
  rw [after]
  by_cases e : f.processedLength + f.data.length = f.totalLength
  · obtain ⟨-, h₂, h₃, -, h₅⟩ := hh.sent.whole (by rw [hh.ml, hh.length_fed, e])
    rw [if_pos e]
    refine .between ?_ ?_ h₅ ?_
    · rw [track]
      exact h₂
    · rw [track]
      exact h₃
    · rw [hy.1, if_pos (hh.length_fed.trans e)]
  · obtain ⟨-, h₂, h₃, h₄, -⟩ := hh.sent.part (by rw [hh.ml, hh.length_fed]; omega)
    rw [if_neg e]
    have hy' : (y.add f.data f.totalLength time).part = y.part ++ f.data := by
      rw [hy.1, if_neg (by rw [hh.length_fed]; exact e)]
    have hpos : 0 < f.data.length := List.length_pos_iff.mpr fun e' => by
      have := hh.piece.data e'
      omega
    refine .sends _ _ ?_ ?_ ?_ ?_ ?_ (by rw [hy', hh.length_fed]) (by omega) (by omega)
    · rw [Skips, track]
      rintro (e' | e')
      · obtain ⟨h₁, h₂⟩ := hh.letThrough.setup e'
        have := hfi.setup h₁ h₂
        omega
      · have hs : (loaded s' f).currentFrameDropped = false := hh.letThrough.sends
        rw [hs] at e'
        cases e'
    · rw [track]
      show h.hf.ml.toNat = _
      rw [hh.sent.header.2, hh.ml]
    · rw [track]
      show Counts _ (loaded s' f).channel h.hf _
      rw [hh.sent.header.2]
      exact h₄
    · rw [track, hy']
      exact h₂
    · rw [track, hh.sameStream.chunkSize, hck]
      exact h₃

/-! ### The times -/

/-- The header says the time since the last one, while nothing of the frame has been sent. -/
theorem base (hh : Through si s s' p g f last x x' y xs h rest) (ht : Timed s p f.isAudio x y g latest)
    (hlat : latest ≤ timeOf s f ∧ timeOf s f < 2 ^ 32) (e : x.part = []) :
    (loaded s' f).header.isAbsolute = false ∧
      last + (loaded s' f).header.hf.ts.toNat = if y.part = [] then timeOf s f else y.time := by
  obtain ⟨-, hheader, -⟩ := hh.letThrough.behind ht.behind
  have hlen := hh.stage.length_fed hh.piece
  refine ⟨?_, ?_⟩
  · show (s'.track f.isAudio).header.isAbsolute = false
    rw [hheader]
    rfl
  · show last + (s'.track f.isAudio).header.hf.ts.toNat = _
    by_cases hy0 : y.part = []
    · have hn0 : f.processedLength = 0 := by rw [← hlen, hy0, List.length_nil]
      rw [if_pos hy0, hheader]
      exact relativeHeader_ts s f hn0 (hh.last_eq ▸ Int.le_trans ht.le hlat.1) (hh.last_eq ▸ ht.nonneg) hlat.2
    · have hn0 : f.processedLength ≠ 0 := by
        rw [← hlen]
        exact fun e => hy0 (List.eq_nil_of_length_eq_zero e)
      rw [if_neg hy0, (hh.letThrough.goesOn hn0).2, hh.last_eq]
      exact (ht.begun (hh.stage.part_ne hh.piece hy0) (hh.letThrough.goesOn hn0).1 e).2

theorem streamId (hh : Through si s s' p g f last x x' y xs h rest) (ht : Timed s p f.isAudio x y g latest) :
    (p.channels (loaded s' f).channel).lastOutStreamId = (loaded s' f).header.hf.si := by
  rw [hh.channel, ht.stream]
  exact hh.letThrough.si.symm

theorem procBytes (hh : Through si s s' p g f last x x' y xs h rest) :
    (p.channels (loaded s' f).channel).lastOutProcBytes = x.part.length := by
  have hle := hh.piece.le
  have hlen := hh.stage.length_fed hh.piece
  rw [← hh.fed, List.length_append] at hlen
  rw [hh.counts.procBytes, hh.ml]
  by_cases ht0 : f.totalLength = 0
  · rw [show x.part.length = 0 by omega, Nat.zero_mod]
  · have := List.length_pos_iff.mpr fun e => ht0 (hh.piece.data e)
    exact Nat.mod_eq_of_lt (by omega)

/-- The time that the first chunk says. -/
theorem firstTime_eq (hh : Through si s s' p g f last x x' y xs h rest) (ht : Timed s p f.isAudio x y g latest)
    (hlat : latest ≤ timeOf s f ∧ timeOf s f < 2 ^ 32) (hne : xs ≠ []) :
    firstTime p xs = if x.part = [] then if y.part = [] then timeOf s f else y.time else last := by
  rw [(hh.sent.time hne).1]
  by_cases hx0 : x.part = []
  · obtain ⟨h₁, h₂⟩ := hh.base ht hlat hx0
    rw [if_pos hx0, ← h₂, chooseType_relative (hh.streamId ht) h₁ (by rw [hh.procBytes, hx0, List.length_nil]), hh.channel,
      ← hh.last_eq]
  · rw [if_neg hx0, chooseType_continue (hh.streamId ht)
      (by rw [hh.procBytes]; exact fun e => hx0 (List.eq_nil_of_length_eq_zero e)), hh.channel, hh.last_eq]

/-- The player takes the frame for one of the time at which it has been fed. -/
theorem time_eq (hh : Through si s s' p g f last x x' y xs h rest) (ht : Timed s p f.isAudio x y g latest)
    (hlat : latest ≤ timeOf s f ∧ timeOf s f < 2 ^ 32) (hne : xs ≠ []) :
    (if x.part = [] then firstTime p xs else x.time) = if y.part = [] then timeOf s f else y.time := by
  by_cases hx0 : x.part = []
  · rw [if_pos hx0, hh.firstTime_eq ht hlat hne, if_pos hx0]
  · rw [if_neg hx0, if_neg (fun e => hx0 (hh.part_nil e)), ht.goes hx0]

theorem time_le (hh : Through si s s' p g f last x x' y xs h rest) (ht : Timed s p f.isAudio x y g latest)
    (hlat : latest ≤ timeOf s f) : (if y.part = [] then timeOf s f else y.time) ≤ timeOf s f := by
  split
  · exact Int.le_refl _
  · rename_i hy0
    exact Int.le_trans (ht.time_le (hh.stage.part_ne hh.piece hy0)) hlat

/-- The frames that are complete. -/
theorem frames_behind (hh : Through si s s' p g f last x x' y xs h rest) {time : Int} :
    (x'.frames = x.frames ∧ (y.add f.data f.totalLength time).frames = y.frames) ∨
      xs ≠ [] ∧ x'.frames = x.frames ++ [(if x.part = [] then firstTime p xs else x.time, y.part ++ f.data)] ∧
        (y.add f.data f.totalLength time).frames =
          y.frames ++ [(if y.part = [] then time else y.time, y.part ++ f.data)] := by
  have hy := y.add_eq f.data f.totalLength time
  have hle := hh.piece.le
  by_cases e : f.processedLength + f.data.length = f.totalLength
  · obtain ⟨h₁, -, -, h₄, -⟩ := hh.sent.whole (by rw [hh.ml, hh.length_fed, e])
    exact .inr ⟨h₁, h₄, by rw [hy.2.2, if_pos (hh.length_fed.trans e)]⟩
  · obtain ⟨h₁, -⟩ := hh.sent.part (by rw [hh.ml, hh.length_fed]; omega)
    exact .inl ⟨h₁, by rw [hy.2.2, if_neg (by rw [hh.length_fed]; exact e)]⟩

/-- A piece that has made no chunk is in the bucket. -/
theorem kept (hh : Through si s s' p g f last x x' y xs h rest) (e : xs = []) :
    h = (loaded s' f).header ∧ x' = x ∧ sendAll p (chunksOf xs) = p :=
  ⟨(hh.sent.kept e).1, (hh.sent.kept e).2, by rw [e]; rfl⟩

/-- The time on the channel goes on, up to that of the piece. -/
theorem absTs_le (hh : Through si s s' p g f last x x' y xs h rest) (ht : Timed s p f.isAudio x y g latest)
    (hlat : latest ≤ timeOf s f ∧ timeOf s f < 2 ^ 32) :
    0 ≤ ((sendAll p (chunksOf xs)).channels (loaded s' f).channel).lastOutAbsTs ∧
      ((sendAll p (chunksOf xs)).channels (loaded s' f).channel).lastOutAbsTs ≤ timeOf s f := by
  have hlast₀ : 0 ≤ last := by
    rw [hh.last_eq]
    exact ht.nonneg
  have hlast₁ : last ≤ timeOf s f := by
    rw [hh.last_eq]
    exact Int.le_trans ht.le hlat.1
  by_cases e : xs = []
  · rw [(hh.kept e).2.2, hh.channel, ← hh.last_eq]
    exact ⟨hlast₀, hlast₁⟩
  · rw [(hh.sent.time e).2.1, hh.firstTime_eq ht hlat e]
    split
    · rename_i hx0
      have h₂ := (hh.base ht hlat hx0).2
      have h₃ := hh.time_le ht hlat.1
      exact ⟨by omega, h₃⟩
    · exact ⟨hlast₀, hlast₁⟩

theorem timed_behind (hh : Through si s s' p g f last x x' y xs h rest) (ht : Timed s p f.isAudio x y g latest)
    (hlat : latest ≤ timeOf s f ∧ timeOf s f < 2 ^ 32) :
    Timed (behindPiece s' f h rest) (sendAll p (chunksOf xs)) f.isAudio x' (y.add f.data f.totalLength (timeOf s f)) (after f)
      (timeOf s f) := by
  have hy := y.add_eq f.data f.totalLength (timeOf s f)
  have hle := hh.piece.le
  obtain ⟨habs₀, habs₁⟩ := hh.absTs_le ht hlat
  refine ⟨?_, ?_, ?_, ?_, fun hn _ hx0 => ?_, fun hx0 => ?_, fun _ => ?_⟩
  · rw [track]
    exact (hh.letThrough.behind ht.behind).1
  · rw [track]
    show ((sendAll p (chunksOf xs)).channels (loaded s' f).channel).lastOutStreamId = h.hf.si
    rw [hh.sent.header.2]
    by_cases e : xs = []
    · rw [(hh.kept e).2.2]
      exact hh.streamId ht
    · exact (hh.sent.time e).2.2.1
  · rw [track]
    exact habs₀
  · rw [track]
    exact habs₁
  · -- all of it is in the bucket
    rw [after] at hn
    have hne : ¬ f.processedLength + f.data.length = f.totalLength := fun e => hn (if_pos e)
    obtain ⟨-, -, -, -, h₅⟩ := hh.sent.part (by rw [hh.ml, hh.length_fed]; omega)
    have e : xs = [] := Classical.byContradiction fun e => h₅ e hx0
    obtain ⟨h₁, h₂, h₃⟩ := hh.kept e
    have hb := hh.base ht hlat (h₂ ▸ hx0)
    rw [track, h₃, h₁, hy.2.1]
    show (loaded s' f).header.isAbsolute = false ∧
      (p.channels (loaded s' f).channel).lastOutAbsTs + (loaded s' f).header.hf.ts.toNat = _
    rw [hh.channel, ← hh.last_eq]
    exact hb
  · rw [hy.2.1]
    by_cases e : xs = []
    · obtain ⟨-, h₂, -⟩ := hh.kept e
      rw [h₂] at hx0 ⊢
      rw [if_neg (fun e' => hx0 (hh.part_nil e'))]
      exact ht.goes hx0
    · rw [(hh.sent.time e).2.2.2]
      exact hh.time_eq ht hlat e
  · rw [hy.2.1]
    exact hh.time_le ht hlat.1

/-- The invariant behind the piece. -/
theorem kind (hh : Through si s s' p g f last x x' y xs h rest) (hk : KindInv si steady latest s p f.isAudio g x y)
    (hfi : Fits s g f) (hck : s.chunkSize = p.outboundChunkSize)
    (hlat : steady → latest ≤ timeOf s f ∧ timeOf s f < 2 ^ 32) :
    KindInv si steady (timeOf s f) (behindPiece s' f h rest) (sendAll p (chunksOf xs)) f.isAudio (after f) x'
      (y.add f.data f.totalLength (timeOf s f)) := by
  refine ⟨hh.onTrack_behind, hh.stage_behind hfi hck _, ?_, fun hsy hc => ?_, fun hst => hh.timed_behind (hk.timed hst) (hlat hst)⟩
  · rcases hh.frames_behind with ⟨h₁, h₂⟩ | ⟨hne, h₁, h₂⟩
    · exact hk.whole.same h₁ h₂
    · exact hk.whole.both h₁ h₂ fun hst => hh.time_eq (hk.timed hst) (hlat hst) hne
  · rw [hh.sameStream.canDropFrames] at hc
    have hxy := hk.all hsy hc
    rcases hh.frames_behind with ⟨h₁, h₂⟩ | ⟨hne, h₁, h₂⟩
    · rw [h₁, h₂, hxy]
    · rw [h₁, h₂, hxy, hh.time_eq (hk.timed hsy) (hlat hsy) hne]

end Through

/-- A piece that is let through. -/
theorem feed_send {steady : Prop} {latest last : Int} {s s' : OutStream} {p : Connection τ} {g : Progress} {f : Feed}
    {x y : Assembly} (hz : s.paused = false) (hd : DropsAllowed s) (hck : s.chunkSize = p.outboundChunkSize)
    (hk : 0 < p.outboundChunkSize) (hk' : p.outboundChunkSize < 2 ^ 32)
    (h : KindInv si steady latest s p f.isAudio g x y) (hfi : Fits s g f)
    (hlat : steady → latest ≤ timeOf s f ∧ timeOf s f < 2 ^ 32)
    (hlast : last = (p.channels (s.track f.isAudio).channel).lastOutAbsTs) (he : s.prepare f last = (s', true))
    {A : Bool → Assembly} (hx : A f.isAudio = x) :
    ∃ s' xs x', s.feedData p f = some (s', sendAll p (chunksOf xs)) ∧
      (allHandedOn p (chunksOf xs)).foldlM (deliver (frameApp si)) A = some (Function.update A f.isAudio x') ∧
      Fed s s' p f xs ∧ KindInv si steady (timeOf s f) s' (sendAll p (chunksOf xs)) f.isAudio (after f) x'
        (y.add f.data f.totalLength (timeOf s f)) := by
  obtain ⟨hst, hot, hl⟩ := prepare_letThrough hd he
  have hp := hfi.piece
  obtain ⟨hpre, hbk, hcounts⟩ := h.stage.ready hp (hck ▸ hk) (fun e => (hl.goesOn e).1) (fun e => (hl.goesOn e).2)
  have hfed : x.part ++ (loaded s' f).bucket = y.part := by
    rw [← hpre]
    exact congrArg (x.part ++ ·) hl.bucket
  have hcounts' : Counts p (loaded s' f).channel (loaded s' f).header.hf x.part.length := by
    rw [← hl.channel] at hcounts
    exact hcounts
  have hlen : x.part.length + (loaded s' f).bucket.length = f.processedLength := by
    rw [← List.length_append, hfed, h.stage.length_fed hp]
  have hbucket : (loaded s' f).bucket.length < p.outboundChunkSize := by
    rw [← hck]
    exact (congrArg List.length hl.bucket).trans_lt hbk
  obtain ⟨xs, h', rest, x', hsend, hfold, hps⟩ := loaded_sent (hl.onTrack h.onTrack) hk hk' hp (loaded_ml hp) hcounts' hlen
    hbucket (fun e => hck ▸ hfi.chunk (e.trans hck.symm)) hx
  rw [← List.append_assoc, hfed] at hps
  have hh : Through si s s' p g f last x x' y xs h' rest :=
    ⟨hp, hst, hl, hl.onTrack h.onTrack, hlast, h.stage, hcounts', hfed, hps⟩
  have hfeed : s.feedData p f = some (behindPiece s' f h' rest, sendAll p (chunksOf xs)) := by
    rw [feedData, hz, ← hlast, he]
    simp only [Bool.false_eq_true, if_false, if_true, hst.chunkSize, hst.feederChunkSize, hck]
    rw [← loaded, hsend]
    rfl
  refine ⟨_, xs, x', hfeed, hfold, ⟨hps.allowed, hh.sameStream, ?_, (setTrack_track_not ..).trans hot, ?_, hps.chunkSize, ?_,
    fun e => ?_⟩, hh.kind h hfi hck hlat⟩
  · refine dropsAllowed_of hd hh.sameStream ((setTrack_track_not ..).trans hot) (b := f.isAudio) fun e => ?_
    have hs : (loaded s' f).currentFrameDropped = false := hl.sends
    rw [Through.track, hs] at e
    cases e
  · rw [Through.track]
    exact hl.channel
  · rw [← hl.channel]
    exact hps.others
  · obtain ⟨-, -, h₁, h₂⟩ := hl.behind e
    have hδ := (setTrack_same s' f.isAudio { loaded s' f with header := h', bucket := rest }).2
    exact ⟨hδ.1.trans h₁, hδ.2.trans h₂⟩

/-- A piece, whatever becomes of it. -/
theorem feed_kind {steady : Prop} {latest : Int} {s : OutStream} {p : Connection τ} {g : Progress} {f : Feed}
    {x y : Assembly} (hz : s.paused = false) (hd : DropsAllowed s) (hck : s.chunkSize = p.outboundChunkSize)
    (hk : 0 < p.outboundChunkSize) (hk' : p.outboundChunkSize < 2 ^ 32)
    (h : KindInv si steady latest s p f.isAudio g x y) (hfi : Fits s g f)
    (hlat : steady → latest ≤ timeOf s f ∧ timeOf s f < 2 ^ 32) {A : Bool → Assembly} (hx : A f.isAudio = x) :
    ∃ s' xs x', s.feedData p f = some (s', sendAll p (chunksOf xs)) ∧
      (allHandedOn p (chunksOf xs)).foldlM (deliver (frameApp si)) A = some (Function.update A f.isAudio x') ∧
      Fed s s' p f xs ∧ KindInv si steady (timeOf s f) s' (sendAll p (chunksOf xs)) f.isAudio (after f) x'
        (y.add f.data f.totalLength (timeOf s f)) := by
  obtain ⟨s', send, he⟩ : ∃ s' send,
      s.prepare f (p.channels (s.track f.isAudio).channel).lastOutAbsTs = (s', send) := ⟨_, _, rfl⟩
  match send, he with
  | false, he => exact feed_skip hz hd h hfi.piece (fun e => (hlat e).1) rfl he hx
  | true, he => exact feed_send hz hd hck hk hk' h hfi hlat rfl he hx

end XH.Proof.Live
