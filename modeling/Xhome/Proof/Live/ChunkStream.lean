import Xhome.Proof.Live.Segments

/-!
# Chunks arrive as they were sent

Both ends of a channel remember the last header; `InStep` says that they agree,
and which bytes of the message under way have been sent. A chunk that is sent, its
header (`headerBytes`) and its data, is one turn of the receiver (`chunk_consumes`),
which leaves both ends in step (`inStep_sent`) and hands on what the chunk
completes. `Consumes` puts such turns together: the bytes take the receiver from
one state to another whatever follows them.
-/

namespace XH.Proof.Live

open Impl.Live Impl.Live.Connection

variable {σ : Type} {a : App σ}

/-! ## Turns one behind the other -/

/-- The bytes take the connection from `p` to `q`, whatever follows them. -/
def Consumes (a : App σ) (p : Connection σ) (bytes : List Byte) (q : Connection σ) : Prop :=
  ∀ rest, Resumable.run (processTurn a) rounds p (bytes ++ rest) = Resumable.run (processTurn a) rounds q rest

theorem Consumes.refl (p : Connection σ) : Consumes a p [] p := fun _ => rfl

theorem Consumes.trans {p q r : Connection σ} {bytes bytes' : List Byte} (h : Consumes a p bytes q)
    (h' : Consumes a q bytes' r) : Consumes a p (bytes ++ bytes') r := by
  intro rest
  rw [List.append_assoc, h, h']

theorem Consumes.of_turn {p q : Connection σ} {bytes : List Byte}
    (h : ∀ rest, processTurn a p (bytes ++ rest) = .next q rest) : Consumes a p bytes q := by
  intro rest
  rw [(resumable a).run_eq, h]

/-! ## The channel of a chunk -/

theorem channelByte_short : ∀ t : Fin 4, ∀ i : Fin 64,
    (BitVec.ofNat 8 t.val <<< 6 ||| BitVec.ofNat 8 i.val : BitVec 8) &&& 0x3f = BitVec.ofNat 8 i.val ∧
      (BitVec.ofNat 8 t.val <<< 6 ||| BitVec.ofNat 8 i.val : BitVec 8) >>> 6 = BitVec.ofNat 8 t.val := by
  decide

theorem IsType.exists_fin {ht : BitVec 8} (h : IsType ht) : ∃ t : Fin 4, ht = BitVec.ofNat 8 t.val := by
  rcases h with rfl | rfl | rfl | rfl
  · exact ⟨0, rfl⟩
  · exact ⟨1, rfl⟩
  · exact ⟨2, rfl⟩
  · exact ⟨3, rfl⟩

/-- The connection once a chunk of type `ht` of channel `i` has begun. -/
def selected (p : Connection σ) (i : Nat) (ht : BitVec 8) : Connection σ :=
  { p.setChannel i { p.channels i with lastInHeaderType := ht } with selectedChannel := some i }

/-- The channels that `Header::Write` can say and `ProcessBytes` understand. -/
def IsChannel (i : Nat) : Prop := 2 ≤ i ∧ i < maxChannelsCount

theorem selectChannel_channelBytes {h : Header} (hi : IsChannel h.ci) (ht : IsType h.ht) (p : Connection σ) :
    ∃ bytes, h.channelBytes = some bytes ∧
      ∀ rest, p.selectChannel (bytes ++ rest) = .next (selected p h.ci h.ht) rest := by
  obtain ⟨h2, hm⟩ := hi
  have hm : h.ci < 319 := hm
  obtain ⟨t, htt⟩ := ht.exists_fin
  by_cases hs : h.ci < 64
  · obtain ⟨h₁, h₂⟩ := channelByte_short t ⟨h.ci, hs⟩
    refine ⟨[h.ht <<< 6 ||| .ofNat 8 h.ci], by rw [Header.channelBytes, if_pos hs], fun rest => ?_⟩
    have hn : (BitVec.ofNat 8 h.ci).toNat = h.ci := by rw [BitVec.toNat_ofNat]; omega
    have h0 : BitVec.ofNat 8 h.ci ≠ 0 := by
      intro e
      have := congrArg BitVec.toNat e
      rw [hn, show ((0 : BitVec 8)).toNat = 0 from rfl] at this
      omega
    have h1 : BitVec.ofNat 8 h.ci ≠ 1 := by
      intro e
      have := congrArg BitVec.toNat e
      rw [hn, show ((1 : BitVec 8)).toNat = 1 from rfl] at this
      omega
    simp only [List.cons_append, List.nil_append, selectChannel, htt, h₁, h₂, if_neg h0, if_neg h1, hn, selected]
  · obtain ⟨h₁, h₂⟩ := channelByte_short t ⟨0, by omega⟩
    refine ⟨[h.ht <<< 6, .ofNat 8 (h.ci - 64)], by rw [Header.channelBytes, if_neg hs, if_pos hm], fun rest => ?_⟩
    have hz : (BitVec.ofNat 8 t.val <<< 6 ||| BitVec.ofNat 8 (0 : Nat) : BitVec 8) = BitVec.ofNat 8 t.val <<< 6 :=
      BitVec.or_zero
    rw [hz] at h₁ h₂
    have hn : 64 + (BitVec.ofNat 8 (h.ci - 64)).toNat = h.ci := by rw [BitVec.toNat_ofNat]; omega
    simp only [List.cons_append, List.nil_append, selectChannel, htt, h₁, h₂, hn, selected]
    rfl

/-! ## The type of a header -/

/-- What `Write` decides: the header type and the time that the channel notes. -/
structure Chosen (h : Header) (channel : Channel) (ht : BitVec 8) (isAbsolute : Bool) (time : Int) : Prop where
  eq : h.chooseType channel =
    ({ h with ht := ht, isAbsolute := isAbsolute }, { channel with lastOutAbsTs := time, lastOutStreamId := h.hf.si })
  isType : IsType ht
  stream : ht ≠ htFull → channel.lastOutStreamId = h.hf.si
  sameLength : channel.lastOutProcBytes = 0 → ht = htSameLengthAndStream ∨ ht = htContinuation →
    channel.lastOutHeader.hf.ml = h.hf.ml ∧ channel.lastOutHeader.hf.mt = h.hf.mt
  sameTime : channel.lastOutProcBytes = 0 → ht = htContinuation → channel.lastOutHeader.hf.ts = h.hf.ts
  goesOn : channel.lastOutProcBytes ≠ 0 → channel.lastOutStreamId = h.hf.si → ht = htContinuation
  lastOutAbsTs : time =
    if ht = htFull then (h.hf.ts.toNat : Int)
    else if ht = htContinuation ∧ channel.lastOutProcBytes ≠ 0 then channel.lastOutAbsTs
    else channel.lastOutAbsTs + h.hf.ts.toNat

theorem exists_chosen (h : Header) (channel : Channel) : ∃ ht ia time, Chosen h channel ht ia time := by
  by_cases hs : channel.lastOutStreamId = h.hf.si
  · have hc : ∀ time, { channel with lastOutAbsTs := time } =
        { channel with lastOutAbsTs := time, lastOutStreamId := h.hf.si } := fun time => by rw [← hs]
    have hc' : channel = { channel with lastOutAbsTs := channel.lastOutAbsTs, lastOutStreamId := h.hf.si } := by
      rw [← hs]
    by_cases hp : channel.lastOutProcBytes = 0
    · by_cases ha : h.isAbsolute
      · refine ⟨htFull, h.isAbsolute, h.hf.ts.toNat, ?_, .inl rfl, fun e => absurd rfl e, fun _ e => ?_, fun _ e => ?_,
          fun e => absurd hp e, by rw [if_pos rfl]⟩
        · simp only [Header.chooseType, if_pos hs, if_pos ha, if_pos hp, ← hc]
        · rcases e with e | e <;> cases e
        · cases e
      · have e := fun ht => show ({ h with ht := ht } : Header) = { h with ht := ht, isAbsolute := h.isAbsolute } from rfl
        by_cases hl : h.hf.mt = channel.lastOutHeader.hf.mt ∧ h.hf.ml = channel.lastOutHeader.hf.ml
        · by_cases ht : h.hf.ts = channel.lastOutHeader.hf.ts
          · refine ⟨htContinuation, h.isAbsolute, channel.lastOutAbsTs + h.hf.ts.toNat, ?_, .inr (.inr (.inr rfl)),
              fun _ => hs, fun _ _ => ⟨hl.2.symm, hl.1.symm⟩, fun _ _ => ht.symm, fun e => absurd hp e, ?_⟩
            · simp only [Header.chooseType, if_pos hs, if_neg ha, if_pos hp, if_pos hl, if_pos ht, ← hc]
            · rw [if_neg continuation_ne_full, if_neg (fun e => e.2 hp)]
          · refine ⟨htSameLengthAndStream, h.isAbsolute, channel.lastOutAbsTs + h.hf.ts.toNat, ?_,
              .inr (.inr (.inl rfl)), fun _ => hs, fun _ _ => ⟨hl.2.symm, hl.1.symm⟩, fun _ e => ?_,
              fun e => absurd hp e, ?_⟩
            · simp only [Header.chooseType, if_pos hs, if_neg ha, if_pos hp, if_pos hl, if_neg ht, ← hc]
            · cases e
            · rw [if_neg sameLength_ne_full, if_neg (fun e => e.2 hp)]
        · refine ⟨htSameStream, h.isAbsolute, channel.lastOutAbsTs + h.hf.ts.toNat, ?_, .inr (.inl rfl), fun _ => hs,
            fun _ e => ?_, fun _ e => ?_, fun e => absurd hp e, ?_⟩
          · simp only [Header.chooseType, if_pos hs, if_neg ha, if_pos hp, if_neg hl, ← hc]
          · rcases e with e | e <;> cases e
          · cases e
          · rw [if_neg sameStream_ne_full, if_neg (fun e => e.2 hp)]
    · refine ⟨htContinuation, h.isAbsolute, channel.lastOutAbsTs, ?_, .inr (.inr (.inr rfl)), fun _ => hs,
        fun e => absurd e hp, fun e => absurd e hp, fun _ _ => rfl, ?_⟩
      · simp only [Header.chooseType, if_pos hs, if_neg hp, ite_self, ← hc']
      · rw [if_neg continuation_ne_full, if_pos ⟨rfl, hp⟩]
  · refine ⟨htFull, true, h.hf.ts.toNat, ?_, .inl rfl, fun e => absurd rfl e, fun _ e => ?_, fun _ e => ?_,
      fun _ e => absurd e hs, by rw [if_pos rfl]⟩
    · simp only [Header.chooseType, if_neg hs]
    · rcases e with e | e <;> cases e
    · cases e

theorem Chosen.hf {h : Header} {channel : Channel} {ht : BitVec 8} {ia : Bool} {time : Int}
    (hc : Chosen h channel ht ia time) : (h.chooseType channel).1 = { h with ht := ht, isAbsolute := ia } := by
  rw [hc.eq]

/-- The channel behind a header that has been written. -/
def noted (h : Header) (channel : Channel) : Channel :=
  { (h.chooseType channel).2 with lastOutHeader := (h.chooseType channel).1 }

/-- The bytes of a header that is written. -/
def headerBytes (h : Header) (channel : Channel) : List Byte :=
  (h.chooseType channel).1.channelBytes.getD [] ++ fieldBytes (h.chooseType channel).1.ht h.hf

theorem writeTo_eq {h : Header} (hi : IsChannel h.ci) (channel : Channel) (buffer : List Byte) :
    h.writeTo channel buffer =
      (true, (h.chooseType channel).1, noted h channel, buffer ++ headerBytes h channel) := by
  obtain ⟨ht, ia, time, hc⟩ := exists_chosen h channel
  obtain ⟨bytes, hb, -⟩ := selectChannel_channelBytes (h := { h with ht := ht, isAbsolute := ia }) hi hc.isType
    (initial ())
  have hw := write_eq hb hc.isType buffer
  simp only [Header.writeTo, noted, headerBytes, hc.eq, hw, hb, Option.getD_some, List.append_assoc]

/-! ## The two ends of a channel -/

/-- The header that the receiver has behind one of type `ht` with these fields. -/
def received (i : Nat) (ht : BitVec 8) (f : HeaderFields) : Header where
  ci := i
  ht := ht
  hf := f
  readCompleted := true
  isAbsolute := decide (ht = htFull)
  skip4bytes := !decide (f.ts < 0x00ffffff)

/-- The sender's channel `c` and the receiver's `d` agree; `data` is what has
been sent of the message under way. -/
structure InStep (c d : Channel) (data : List Byte) : Prop where
  state : d.state = .header
  inputData : d.inputData = data
  procBytes : d.lastInProcBytes = c.lastOutProcBytes
  absTs : d.lastInAbsTs = c.lastOutAbsTs
  known : c.lastOutStreamId ≠ 0xffffffff →
    c.lastOutHeader.hf.si = c.lastOutStreamId ∧ d.lastInHeader.hf = c.lastOutHeader.hf ∧
      d.lastInHeader.skip4bytes = !decide (c.lastOutHeader.hf.ts < 0x00ffffff)
  underWay : c.lastOutProcBytes ≠ 0 →
    c.lastOutStreamId ≠ 0xffffffff ∧ c.lastOutProcBytes < c.lastOutHeader.hf.ml.toNat

/-- A header that may follow on a channel: in the middle of a message it is the one of that message. -/
structure Follows (h : Header) (c : Channel) : Prop where
  isChannel : IsChannel h.ci
  stream : h.hf.si ≠ 0xffffffff
  same : c.lastOutProcBytes ≠ 0 → c.lastOutHeader.hf = h.hf

section

variable {h : Header} {c d : Channel} {data : List Byte}

theorem InStep.read (hs : InStep c d data) (hf : Follows h c) (i : Nat) (rest : List Byte) :
    d.lastInHeader.read i (h.chooseType c).1.ht (fieldBytes (h.chooseType c).1.ht h.hf ++ rest)
        (fieldBytes (h.chooseType c).1.ht h.hf ++ rest).length =
      (true, received i (h.chooseType c).1.ht h.hf, rest) := by
  obtain ⟨ht, ia, time, hc⟩ := exists_chosen h c
  have hk : ht ≠ htFull → c.lastOutHeader.hf.si = h.hf.si ∧ d.lastInHeader.hf = c.lastOutHeader.hf ∧
      d.lastInHeader.skip4bytes = !decide (c.lastOutHeader.hf.ts < 0x00ffffff) := by
    intro hne
    have hsi := hc.stream hne
    obtain ⟨h₁, h₂⟩ := hs.known (hsi ▸ hf.stream)
    exact ⟨h₁.trans hsi, h₂⟩
  rw [hc.hf]
  apply read_fieldBytes hc.isType
  · intro hne
    rw [(hk hne).2.1, (hk hne).1]
  · intro he
    have hne : ht ≠ htFull := by
      rcases he with rfl | rfl
      · exact sameLength_ne_full
      · exact continuation_ne_full
    rw [(hk hne).2.1]
    by_cases hp : c.lastOutProcBytes = 0
    · exact hc.sameLength hp he
    · rw [hf.same hp]
      exact ⟨rfl, rfl⟩
  · intro he
    have hne : ht ≠ htFull := he ▸ continuation_ne_full
    have hts : c.lastOutHeader.hf.ts = h.hf.ts := by
      by_cases hp : c.lastOutProcBytes = 0
      · exact hc.sameTime hp he
      · rw [hf.same hp]
    rw [(hk hne).2.2, (hk hne).2.1, hts]
    exact ⟨rfl, rfl⟩

/-- The receiver's channel behind a header. -/
def noticed (h : Header) (c d : Channel) : Channel :=
  { d with
    lastInHeaderType := (h.chooseType c).1.ht
    lastInHeader := received h.ci (h.chooseType c).1.ht h.hf
    lastInAbsTs := (h.chooseType c).2.lastOutAbsTs }

theorem InStep.headerRead (hs : InStep c d data) :
    headerRead { d with lastInHeaderType := (h.chooseType c).1.ht } (received h.ci (h.chooseType c).1.ht h.hf) =
      { noticed h c d with state := .payload } := by
  obtain ⟨ht, ia, time, hc⟩ := exists_chosen h c
  have ht' : (if ht = htFull then (h.hf.ts.toNat : Int)
      else if ht = htSameStream ∨ ht = htSameLengthAndStream then d.lastInAbsTs + h.hf.ts.toNat
      else if ht = htContinuation ∧ d.lastInProcBytes = 0 then d.lastInAbsTs + h.hf.ts.toNat
      else d.lastInAbsTs) = time := by
    rw [hc.lastOutAbsTs, hs.absTs, hs.procBytes]
    rcases hc.isType with rfl | rfl | rfl | rfl
    · rfl
    · rw [if_neg sameStream_ne_full, if_neg sameStream_ne_full, if_pos (.inl rfl),
        if_neg (fun e => continuation_ne_sameStream e.1.symm)]
    · rw [if_neg sameLength_ne_full, if_neg sameLength_ne_full, if_pos (.inr rfl),
        if_neg (fun e => continuation_ne_sameLength e.1.symm)]
    · rw [if_neg continuation_ne_full, if_neg continuation_ne_full, if_neg (by decide)]
      by_cases hp : c.lastOutProcBytes = 0
      · rw [if_pos ⟨rfl, hp⟩, if_neg (fun e => e.2 hp)]
      · rw [if_neg (fun e => hp e.2), if_pos ⟨rfl, hp⟩]
  simp only [Connection.headerRead, noticed, received, hc.eq, ht']

end

/-! ## A chunk is a turn of the receiver -/

/-- What the receiver does with the data of a chunk of a message of type `mt`. -/
def taken (a : App σ) (p : Connection σ) (i : Nat) (mt : BitVec 8) (data : List Byte) : Option (Connection σ) :=
  if mt = mtVideoData then p.takeData a i false data
  else if mt = mtAudioData then p.takeData a i true data
  else p.takeMessage a i data

/-- The connection that waits for the next chunk. -/
def atHeader (p : Connection σ) (i : Nat) : Connection σ :=
  { p.setChannel i { p.channels i with state := .header } with selectedChannel := none }

theorem takePayload_eq (p : Connection σ) (i : Nat) (buffer : List Byte) :
    p.takePayload a i buffer =
      if buffer.length < p.chunkLength (p.channels i) then .wait p buffer
      else
        match taken a (atHeader p i) i (p.channels i).lastInHeader.hf.mt
            (buffer.take (p.chunkLength (p.channels i))) with
        | none => .fail (atHeader p i)
        | some p' => .next p' (buffer.drop (p.chunkLength (p.channels i))) := rfl

/-- The bytes that the next chunk of a message has. -/
def chunkSizeOf (chunkSize : Nat) (h : Header) (c : Channel) : Nat :=
  min chunkSize (h.hf.ml.toNat - c.lastOutProcBytes)

theorem takePayload_of_taken {p p' : Connection σ} {i : Nat} {piece : List Byte}
    (hl : piece.length = p.chunkLength (p.channels i))
    (ht : taken a (atHeader p i) i (p.channels i).lastInHeader.hf.mt piece = some p') (rest : List Byte) :
    p.takePayload a i (piece ++ rest) = .next p' rest := by
  have hn : ¬ (piece ++ rest).length < piece.length := by
    rw [List.length_append]
    omega
  rw [takePayload_eq, ← hl, if_neg hn, List.take_left, List.drop_left, ht]

/-- The bytes that are left of a message are no more than it has. -/
theorem InStep.procBytes_le {h : Header} {c d : Channel} {data : List Byte} (hs : InStep c d data)
    (hf : Follows h c) : c.lastOutProcBytes ≤ h.hf.ml.toNat := by
  by_cases hp : c.lastOutProcBytes = 0
  · omega
  · have := (hs.underWay hp).2
    rw [hf.same hp] at this
    omega

/-- The receiver behind a header, in front of the data of the chunk. -/
def inPayload (p : Connection σ) (h : Header) (c : Channel) : Connection σ :=
  { p.setChannel h.ci { noticed h c (p.channels h.ci) with state := .payload } with selectedChannel := some h.ci }

theorem inPayload_channels (p : Connection σ) (h : Header) (c : Channel) :
    (inPayload p h c).channels h.ci = { noticed h c (p.channels h.ci) with state := .payload } := setChannel_channels ..

theorem atHeader_inPayload {p : Connection σ} {h : Header} {c : Channel} {data : List Byte}
    (hp : p.selectedChannel = none) (hs : InStep c (p.channels h.ci) data) :
    atHeader (inPayload p h c) h.ci = p.setChannel h.ci (noticed h c (p.channels h.ci)) := by
  have hn : { noticed h c (p.channels h.ci) with state := .header } = noticed h c (p.channels h.ci) := by
    rw [noticed, ← hs.state]
  have hu : Function.update (Function.update p.channels h.ci { noticed h c (p.channels h.ci) with state := .payload })
      h.ci { noticed h c (p.channels h.ci) with state := .header } =
      Function.update p.channels h.ci (noticed h c (p.channels h.ci)) := by
    rw [Function.update_idem, hn]
  rw [atHeader, inPayload_channels]
  simp only [inPayload, setChannel, hu, hp]

theorem readHeader_of_read {p : Connection σ} {i : Nat} {h : Header} {buffer rest : List Byte}
    (hs : (p.channels i).state = .header)
    (hr : (p.channels i).lastInHeader.read i (p.channels i).lastInHeaderType buffer buffer.length = (true, h, rest))
    (hc : h.readCompleted = true) :
    p.readHeader i buffer = .next (p.setChannel i (headerRead (p.channels i) h)) rest := by
  simp only [readHeader, hs, hr, hc, Bool.not_true, Bool.false_eq_true, if_false]

/-- A header takes the receiver in front of its data. -/
theorem processTurn_headerBytes {p : Connection σ} {h : Header} {c : Channel} {data : List Byte}
    (hp : p.selectedChannel = none) (hs : InStep c (p.channels h.ci) data) (hf : Follows h c) (rest : List Byte) :
    processTurn a p (headerBytes h c ++ rest) = (inPayload p h c).takePayload a h.ci rest := by
  obtain ⟨hty, ia, time, hc⟩ := exists_chosen h c
  obtain ⟨bytes, hb, hsel⟩ := selectChannel_channelBytes (h := { h with ht := hty, isAbsolute := ia }) hf.isChannel
    hc.isType p
  have hread := hs.read hf h.ci rest
  have hnext := hs.headerRead (h := h)
  simp only [hc.hf] at hread hnext
  have hbytes : headerBytes h c ++ rest = bytes ++ (fieldBytes hty h.hf ++ rest) := by
    simp only [headerBytes, hc.hf, hb, Option.getD_some, List.append_assoc]
  have hq : (selected p h.ci hty).channels h.ci = { p.channels h.ci with lastInHeaderType := hty } :=
    setChannel_channels ..
  have hr : (selected p h.ci hty).readHeader h.ci (fieldBytes hty h.hf ++ rest) = .next (inPayload p h c) rest := by
    have hi : (selected p h.ci hty).setChannel h.ci { noticed h c (p.channels h.ci) with state := .payload } =
        inPayload p h c := by
      simp only [selected, inPayload, setChannel, Function.update_idem]
    have hread' : ((selected p h.ci hty).channels h.ci).lastInHeader.read h.ci
        ((selected p h.ci hty).channels h.ci).lastInHeaderType (fieldBytes hty h.hf ++ rest)
        (fieldBytes hty h.hf ++ rest).length = (true, received h.ci hty h.hf, rest) := by
      rw [hq]
      exact hread
    rw [readHeader_of_read (by rw [hq]; exact hs.state) hread' rfl, hq, hnext, hi]
  have hm : ¬ maxChannelsCount ≤ (selected p h.ci hty).selectedChannel.getD 0 := Nat.not_le.mpr hf.isChannel.2
  rw [hbytes, processTurn_of_none hp, hsel, followedBy, chunkTurn, if_neg hm]
  show followedBy ((selected p h.ci hty).readHeader h.ci _) _ = _
  rw [hr]
  rfl

theorem chunk_consumes {p p' : Connection σ} {h : Header} {c : Channel} {data piece : List Byte}
    (hp : p.selectedChannel = none) (hs : InStep c (p.channels h.ci) data) (hf : Follows h c)
    (hl : piece.length = chunkSizeOf p.inboundChunkSize h c)
    (ht : taken a (p.setChannel h.ci (noticed h c (p.channels h.ci))) h.ci h.hf.mt piece = some p') :
    Consumes a p (headerBytes h c ++ piece) p' := by
  refine .of_turn fun rest => ?_
  rw [List.append_assoc, processTurn_headerBytes hp hs hf]
  refine takePayload_of_taken ?_ ?_ rest
  · have h24 := h.hf.ml.isLt
    have hn : (inPayload p h c).chunkLength ((inPayload p h c).channels h.ci) =
        if p.inboundChunkSize ≤ sub32 h.hf.ml.toNat (p.channels h.ci).lastInProcBytes then p.inboundChunkSize
        else sub32 h.hf.ml.toNat (p.channels h.ci).lastInProcBytes := by
      rw [inPayload_channels]
      rfl
    rw [hn, hl, chunkSizeOf, hs.procBytes, sub32_of_le (by omega) (hs.procBytes_le hf)]
    split <;> omega
  · rw [atHeader_inPayload hp hs, inPayload_channels]
    exact ht

/-! ## What a chunk leaves behind -/

/-- The sender's channel behind `n` bytes of a message whose last chunk was of type `ht`. -/
def sentTo (h : Header) (c : Channel) (ht : BitVec 8) (n : Nat) : Channel :=
  { (h.chooseType c).2 with lastOutHeader := { (h.chooseType c).1 with ht := ht }, lastOutProcBytes := n }

/-- The receiver's channel behind `n` bytes of a message whose last chunk was of
type `ht`; it has collected `data`. -/
def receivedFrom (h : Header) (c d : Channel) (ht : BitVec 8) (n : Nat) (data : List Byte) : Channel :=
  { d with
    lastInHeaderType := ht
    lastInHeader := received h.ci ht h.hf
    lastInAbsTs := (h.chooseType c).2.lastOutAbsTs
    inputData := data
    lastInProcBytes := n }

theorem inStep_sent {h : Header} {c d : Channel} {data : List Byte} (hs : InStep c d data) (hf : Follows h c)
    (ht : BitVec 8) {n : Nat} (hn : n ≠ 0 → n < h.hf.ml.toNat) (data' : List Byte) :
    InStep (sentTo h c ht n) (receivedFrom h c d ht n data') data' := by
  obtain ⟨hty, ia, time, hc⟩ := exists_chosen h c
  have hhf : (sentTo h c ht n).lastOutHeader.hf = h.hf := by simp only [sentTo, hc.hf]
  have hsi : (sentTo h c ht n).lastOutStreamId = h.hf.si := by simp only [sentTo, hc.eq]
  refine ⟨hs.state, rfl, rfl, rfl, fun _ => ?_, fun h0 => ?_⟩
  · rw [hhf, hsi]
    exact ⟨rfl, rfl, rfl⟩
  · rw [hhf, hsi]
    exact ⟨hf.stream, hn h0⟩

/-- A message that is under way goes on with chunks of type `htContinuation`. -/
theorem chooseType_continue {h : Header} {c : Channel} (hs : c.lastOutStreamId = h.hf.si)
    (hp : c.lastOutProcBytes ≠ 0) : h.chooseType c = ({ h with ht := htContinuation }, c) := by
  simp only [Header.chooseType, if_pos hs, if_neg hp, ite_self]

/-- The header that goes on with a message. -/
theorem chooseType_sentTo (h : Header) (c : Channel) (ht : BitVec 8) {n : Nat} (hn : n ≠ 0) :
    (h.chooseType c).1.chooseType (sentTo h c ht n) =
      ({ (h.chooseType c).1 with ht := htContinuation }, sentTo h c ht n) := by
  obtain ⟨hty, ia, time, hc⟩ := exists_chosen h c
  apply chooseType_continue
  · simp only [sentTo, hc.eq]
  · exact hn

theorem sentTo_sentTo (h : Header) (c : Channel) (ht ht' : BitVec 8) {n : Nat} (hn : n ≠ 0) (m : Nat) :
    sentTo (h.chooseType c).1 (sentTo h c ht n) ht' m = sentTo h c ht' m := by
  have hc : ∀ x : Header × Channel, x = ({ (h.chooseType c).1 with ht := htContinuation }, sentTo h c ht n) →
      ({ x.2 with lastOutHeader := { x.1 with ht := ht' }, lastOutProcBytes := m } : Channel) = sentTo h c ht' m := by
    rintro _ rfl
    rfl
  exact hc _ (chooseType_sentTo h c ht hn)

/-! ## A message is collected -/

theorem taken_message {p : Connection σ} {i : Nat} {mt : BitVec 8} (hv : mt ≠ mtVideoData) (ha : mt ≠ mtAudioData)
    (data : List Byte) : taken a p i mt data = p.takeMessage a i data := by
  rw [taken, if_neg hv, if_neg ha]

/-- A chunk that does not end the message. -/
theorem takeMessage_more {p : Connection σ} {i : Nat} {d : Channel} {data : List Byte}
    (hl : d.lastInProcBytes + data.length < d.lastInHeader.hf.ml.toNat) :
    (p.setChannel i d).takeMessage a i data =
      some (p.setChannel i
        { d with inputData := d.inputData ++ data, lastInProcBytes := d.lastInProcBytes + data.length }) := by
  have h24 := d.lastInHeader.hf.ml.isLt
  have hu : u32 (d.lastInProcBytes + data.length) = d.lastInProcBytes + data.length := u32_of_lt (by omega)
  have hne : ¬ d.lastInHeader.hf.ml.toNat = d.lastInProcBytes + data.length := by omega
  simp only [takeMessage, setChannel_channels, hu, if_neg hne, setChannel_setChannel]

/-- The chunk that ends it. -/
theorem takeMessage_last {p : Connection σ} {i : Nat} {d : Channel} {data : List Byte}
    (hl : d.lastInProcBytes + data.length = d.lastInHeader.hf.ml.toNat) :
    (p.setChannel i d).takeMessage a i data =
      ((p.setChannel i { d with inputData := d.inputData ++ data, lastInProcBytes := 0 }).inboundMessageAvailable
        a i).filter fun p => (p.channels i).inputData.isEmpty := by
  have h24 := d.lastInHeader.hf.ml.isLt
  have hu : u32 (d.lastInProcBytes + data.length) = d.lastInHeader.hf.ml.toNat := by
    rw [u32_of_lt (by omega), hl]
  simp only [takeMessage, setChannel_channels, hu, if_true, setChannel_setChannel]

/-- The type of the last chunk of a message with `n` bytes left. -/
def lastType (k : Nat) (h : Header) (c : Channel) (n : Nat) : BitVec 8 :=
  if n ≤ k then (h.chooseType c).1.ht else htContinuation

theorem chunkLoop_nil (k fuel : Nat) (h : Header) (c : Channel) (buffer : List Byte) (ok : Bool) :
    chunkLoop k fuel h c [] buffer ok = (ok, c, buffer) := by
  cases fuel <;> rfl

/-- A round of the loop of `Serialize`. -/
theorem chunkLoop_succ (k fuel : Nat) {h : Header} {c : Channel} {internal : List Byte} (buffer : List Byte)
    (hi : IsChannel h.ci) (hne : internal ≠ []) (hu : c.lastOutProcBytes + min k internal.length < 2 ^ 32) :
    chunkLoop k (fuel + 1) h c internal buffer true =
      chunkLoop k fuel (h.chooseType c).1
        (sentTo h c (h.chooseType c).1.ht (c.lastOutProcBytes + min k internal.length))
        (internal.drop (min k internal.length))
        (buffer ++ (headerBytes h c ++ internal.take (min k internal.length))) true := by
  obtain ⟨hty, ia, time, hc⟩ := exists_chosen h c
  have hn : (if k ≤ internal.length then k else internal.length) = min k internal.length := rfl
  have hch : ({ noted h c with lastOutProcBytes := u32 ((noted h c).lastOutProcBytes + min k internal.length) } :
      Channel) = sentTo h c (h.chooseType c).1.ht (c.lastOutProcBytes + min k internal.length) := by
    simp only [noted, sentTo, hc.eq, u32_of_lt hu]
  rw [chunkLoop, if_neg hne]
  simp only [writeTo_eq hi, hn, hch, Bool.and_true, List.append_assoc]

/-- The chunks of a message take the receiver to its completion. -/
theorem chunkLoop_consumes {k : Nat} (hk : 0 < k) (fuel : Nat) :
    ∀ (h : Header) (c : Channel) (internal sent buffer : List Byte), internal.length ≤ fuel → internal ≠ [] →
      h.hf.ml.toNat = (sent ++ internal).length → c.lastOutProcBytes = sent.length → Follows h c →
      h.hf.mt ≠ mtVideoData → h.hf.mt ≠ mtAudioData →
      ∃ bytes, chunkLoop k fuel h c internal buffer true =
          (true, sentTo h c (lastType k h c internal.length) h.hf.ml.toNat, buffer ++ bytes) ∧
        ∀ {σ : Type} {a : App σ} {p p' : Connection σ}, p.selectedChannel = none → p.inboundChunkSize = k →
          InStep c (p.channels h.ci) sent →
          ((p.setChannel h.ci (receivedFrom h c (p.channels h.ci) (lastType k h c internal.length) 0
              (sent ++ internal))).inboundMessageAvailable a h.ci).filter
            (fun p => (p.channels h.ci).inputData.isEmpty) = some p' →
          Consumes a p bytes p' := by
  induction fuel with
  | zero =>
    intro h c internal sent buffer hf hne
    exact absurd (List.eq_nil_of_length_eq_zero (by omega)) hne
  | succ fuel ih =>
    intro h c internal sent buffer hf hne hml hpb hfo hv ha
    have h24 := h.hf.ml.isLt
    have hpos := List.length_pos_iff.mpr hne
    rw [List.length_append] at hml
    have hmin : min k internal.length ≤ internal.length := Nat.min_le_right ..
    have hstep := chunkLoop_succ k fuel buffer hfo.isChannel hne (c := c) (by omega)
    obtain ⟨hty, ia, time, hc⟩ := exists_chosen h c
    have hhf : (h.chooseType c).1.hf = h.hf := by rw [hc.hf]
    have hci : (h.chooseType c).1.ci = h.ci := by rw [hc.hf]
    by_cases hle : internal.length ≤ k
    · have hm : min k internal.length = internal.length := Nat.min_eq_right hle
      rw [hm, List.drop_length, List.take_length, chunkLoop_nil, hpb, ← hml] at hstep
      refine ⟨headerBytes h c ++ internal, ?_, ?_⟩
      · rw [hstep, lastType, if_pos hle]
      · intro σ a p p' hp hpk hs he
        refine chunk_consumes hp hs hfo ?_ ?_
        · rw [chunkSizeOf, hpk, hpb]
          omega
        · rw [taken_message hv ha, takeMessage_last]
          · rw [lastType, if_pos hle] at he
            rw [← he, ← hs.inputData]
            rfl
          · show (p.channels h.ci).lastInProcBytes + internal.length = h.hf.ml.toNat
            rw [hs.procBytes, hpb, hml]
    · have hm : min k internal.length = k := Nat.min_eq_left (by omega)
      rw [hm, hpb] at hstep
      have hn0 : sent.length + k ≠ 0 := by omega
      have hct := chooseType_sentTo h c (h.chooseType c).1.ht hn0
      have hlt : lastType k (h.chooseType c).1 (sentTo h c (h.chooseType c).1.ht (sent.length + k))
          (internal.drop k).length = lastType k h c internal.length := by
        rw [lastType, lastType, if_neg hle, hct, ite_self]
      have hfo' : Follows (h.chooseType c).1 (sentTo h c (h.chooseType c).1.ht (sent.length + k)) :=
        ⟨hci ▸ hfo.isChannel, hhf ▸ hfo.stream, fun _ => rfl⟩
      obtain ⟨bytes, hb, hcons⟩ := ih (h.chooseType c).1 (sentTo h c (h.chooseType c).1.ht (sent.length + k))
        (internal.drop k) (sent ++ internal.take k) (buffer ++ (headerBytes h c ++ internal.take k))
        (by rw [List.length_drop]; omega)
        (List.length_pos_iff.mp (by rw [List.length_drop]; omega))
        (by rw [hhf, hml, List.append_assoc, List.take_append_drop, List.length_append])
        (by rw [List.length_append, List.length_take, hm]; rfl)
        hfo' (hhf ▸ hv) (hhf ▸ ha)
      rw [hlt] at hb hcons
      refine ⟨headerBytes h c ++ internal.take k ++ bytes, ?_, ?_⟩
      · rw [hstep, hb, hhf, sentTo_sentTo h c _ _ hn0]
        simp only [List.append_assoc]
      · intro σ a p p' hp hpk hs he
        have hmore : taken a (p.setChannel h.ci (noticed h c (p.channels h.ci))) h.ci h.hf.mt (internal.take k) =
            some (p.setChannel h.ci (receivedFrom h c (p.channels h.ci) (h.chooseType c).1.ht (sent.length + k)
              (sent ++ internal.take k))) := by
          have htl : (internal.take k).length = k := by rw [List.length_take, hm]
          rw [taken_message hv ha, takeMessage_more]
          · rw [htl, ← hpb, ← hs.procBytes, ← hs.inputData]
            rfl
          · show (p.channels h.ci).lastInProcBytes + (internal.take k).length < h.hf.ml.toNat
            rw [hs.procBytes, hpb, htl]
            omega
        refine (chunk_consumes hp hs hfo ?_ hmore).trans (hcons hp hpk ?_ ?_)
        · rw [chunkSizeOf, hpk, hpb, List.length_take]
          omega
        · rw [hci, setChannel_channels]
          exact inStep_sent hs hfo _ (fun _ => by omega) _
        · rw [← he, hci, setChannel_channels, setChannel_setChannel, List.append_assoc, List.take_append_drop]
          simp only [receivedFrom, hct, hci, hhf]
          rfl

end XH.Proof.Live
