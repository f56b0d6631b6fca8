import Xhome.Proof.Live.ChunkStream

/-!
# What is sent on an RTMP connection is handed on at the other end

A sender sends messages, chunks of audio and video frames, chunk sizes and abort
messages on the channels of one connection, in any order (`Send`, `Allowed`).
`Agree` is the invariant of the two ends; each thing sent keeps it and hands
`handedOn` to the receiver's application (`send_delivers`), and so does a run of
them (`sendAll_consumes`), however its bytes arrive (`sent_delivered`).
-/

namespace XH.Proof.Live

open Impl.Live Impl.Live.Connection

variable {τ σ : Type} {a : App σ}

/-! ## What is sent -/

inductive Send where
  | message (m : Message)
  /-- A chunk of an audio or video frame. -/
  | chunk (h : Header) (data : List Byte)
  | chunkSize (size : Nat)
  | abort (i : Nat)

/-- A chunk of a frame: its header, its data, and the bytes of the frame that the channel counts. -/
def sendChunk (p : Connection τ) (h : Header) (data : List Byte) : Connection τ :=
  let n := (p.channels h.ci).lastOutProcBytes
  let p := (p.sendRawData h h.ci data).2.2
  p.setChannel h.ci { p.channels h.ci with lastOutProcBytes := (n + data.length) % h.hf.ml.toNat }

def send (p : Connection τ) : Send → Connection τ
  | .message m => (p.sendMessage m).2
  | .chunk h data => sendChunk p h data
  | .chunkSize size => p.trySetOutboundChunkSize size
  | .abort i => p.abortChannel i

/-- The channel is not in the middle of a message. -/
def Idle (p : Connection τ) (i : Nat) : Prop := (p.channels i).lastOutProcBytes = 0

/-- What may be sent next: no message in the middle of another one of its
channel, and of a frame the chunk that is next. -/
def Allowed (p : Connection τ) : Send → Prop
  | .message m =>
    IsChannel m.ci ∧ Idle p m.ci ∧ m.si ≠ 0xffffffff ∧ m.body.length < 2 ^ 24 ∧
      m.mt ∉ [mtChunkSize, mtAbortMessage, mtAudioData, mtVideoData]
  | .chunk h data =>
    Follows h (p.channels h.ci) ∧ h.hf.mt ∈ [mtAudioData, mtVideoData] ∧ h.hf.si.toNat < maxStreamsCount ∧
      data.length = chunkSizeOf p.outboundChunkSize h (p.channels h.ci)
  | .chunkSize size => Idle p 2 ∧ size ≤ 4 * 1024 * 1024
  | .abort i => Idle p 2 ∧ i < maxChannelsCount

/-- What the application of a receiver is handed. -/
inductive Delivery where
  | data (si : Nat) (data : List Byte) (processedLength totalLength : Nat) (absoluteTimestamp : Int) (isAudio : Bool)
  | message (h : Header) (body : List Byte)

def deliver (a : App σ) (s : σ) : Delivery → Option σ
  | .data si data processedLength totalLength absoluteTimestamp isAudio =>
    if a.inNet s si then a.feedData s si data processedLength totalLength absoluteTimestamp isAudio else some s
  | .message h body =>
    match a.inboundMessage s h body with
    | some (s, []) => some s
    | _ => none

/-- What a thing sent makes the receiver hand on. -/
def handedOn (p : Connection τ) : Send → List Delivery
  | .message m =>
    if m.body = [] then []
    else [.message (received m.ci (lastType p.outboundChunkSize m.header (p.channels m.ci) m.body.length) m.header.hf)
      m.body]
  | .chunk h data =>
    [.data h.hf.si.toNat data (p.channels h.ci).lastOutProcBytes h.hf.ml.toNat
      (h.chooseType (p.channels h.ci)).2.lastOutAbsTs (decide (h.hf.mt = mtAudioData))]
  | .chunkSize _ => []
  | .abort _ => []

/-! ## The two ends -/

structure Agree (p : Connection τ) (q : Connection σ) : Prop where
  selected : q.selectedChannel = none
  chunkSize : q.inboundChunkSize = p.outboundChunkSize
  chunkSize_ge : 128 ≤ p.outboundChunkSize
  id : ∀ i, (p.channels i).id = i
  channels : ∀ i, InStep (p.channels i) (q.channels i) []

theorem agree_initial (s : τ) (t : σ) : Agree (initial s) (initial t) where
  selected := rfl
  chunkSize := rfl
  chunkSize_ge := Nat.le_refl _
  id _ := rfl
  channels _ := ⟨rfl, rfl, rfl, rfl, fun h => absurd rfl h, fun h => absurd rfl h⟩

/-- A channel that is new at both ends, and nothing else. -/
theorem Agree.setChannel {p : Connection τ} {q : Connection σ} (h : Agree p q) {i : Nat} {c d : Channel}
    (hid : c.id = i) (hs : InStep c d []) (s : σ) (buffer : List Byte) :
    Agree { p.setChannel i c with outputBuffer := buffer } { q.setChannel i d with app := s } where
  selected := h.selected
  chunkSize := h.chunkSize
  chunkSize_ge := h.chunkSize_ge
  id j := by
    by_cases hj : j = i
    · subst hj
      show ((p.setChannel j c).channels j).id = j
      rw [setChannel_channels, hid]
    · show (Function.update p.channels i c j).id = j
      rw [Function.update_of_ne hj]
      exact h.id j
  channels j := by
    by_cases hj : j = i
    · subst hj
      show InStep ((p.setChannel j c).channels j) ((q.setChannel j d).channels j) []
      rw [setChannel_channels, setChannel_channels]
      exact hs
    · show InStep (Function.update p.channels i c j) (Function.update q.channels i d j) []
      rw [Function.update_of_ne hj, Function.update_of_ne hj]
      exact h.channels j

/-! ## A message -/

theorem header_ml {m : Message} (hl : m.body.length < 2 ^ 24) : m.header.hf.ml.toNat = m.body.length := by
  show (BitVec.ofNat 24 m.body.length).toNat = _
  rw [BitVec.toNat_ofNat, Nat.mod_eq_of_lt hl]

theorem follows_header {p : Connection τ} {m : Message} (hi : IsChannel m.ci) (hp : Idle p m.ci)
    (hs : m.si ≠ 0xffffffff) : Follows m.header (p.channels m.ci) :=
  ⟨hi, hs, fun h => absurd hp h⟩

theorem sentTo_id (h : Header) (c : Channel) (ht : BitVec 8) (n : Nat) : (sentTo h c ht n).id = c.id := by
  obtain ⟨hty, ia, time, hc⟩ := exists_chosen h c
  simp only [sentTo, hc.eq]

/-- The receiver behind the last chunk of a message, which it has not looked at yet. -/
def collected (p : Connection τ) (q : Connection σ) (m : Message) : Connection σ :=
  q.setChannel m.ci (receivedFrom m.header (p.channels m.ci) (q.channels m.ci)
    (lastType p.outboundChunkSize m.header (p.channels m.ci) m.body.length) 0 m.body)

/-- The sender behind a message. -/
def behindMessage (p : Connection τ) (m : Message) (bytes : List Byte) : Connection τ :=
  { p.setChannel m.ci (sentTo m.header (p.channels m.ci)
      (lastType p.outboundChunkSize m.header (p.channels m.ci) m.body.length) 0) with
    outputBuffer := p.outputBuffer ++ bytes }

/-- `SendMessage` takes the receiver to the completed message. -/
theorem sendMessage_consumes {p : Connection τ} {m : Message} (hk : 0 < p.outboundChunkSize) (hi : IsChannel m.ci)
    (hp : Idle p m.ci) (hs : m.si ≠ 0xffffffff) (hl : m.body.length < 2 ^ 24) (hne : m.body ≠ [])
    (hv : m.mt ≠ mtVideoData) (ha : m.mt ≠ mtAudioData) :
    ∃ bytes, p.sendMessage m = (true, behindMessage p m bytes) ∧
      ∀ {σ : Type} {a : App σ} {q q' : Connection σ}, q.selectedChannel = none →
        q.inboundChunkSize = p.outboundChunkSize → InStep (p.channels m.ci) (q.channels m.ci) [] →
        ((collected p q m).inboundMessageAvailable a m.ci).filter
          (fun q => (q.channels m.ci).inputData.isEmpty) = some q' →
        Consumes a q bytes q' := by
  obtain ⟨bytes, hb, hcons⟩ := chunkLoop_consumes hk m.body.length m.header (p.channels m.ci) m.body [] p.outputBuffer
    (Nat.le_refl _) hne (header_ml hl) hp (follows_header hi hp hs) hv ha
  refine ⟨bytes, ?_, fun hq hqk hst he => hcons hq hqk hst he⟩
  simp only [sendMessage, hb]
  rfl

/-- A thing sent, and what it does to a receiver that agrees. -/
def Delivers (p : Connection τ) (s : Send) : Prop :=
  ∀ (σ : Type) (a : App σ) (q : Connection σ) (t : σ), Agree p q → (handedOn p s).foldlM (deliver a) q.app = some t →
    ∃ bytes q', (send p s).outputBuffer = p.outputBuffer ++ bytes ∧ Consumes a q bytes q' ∧ Agree (send p s) q' ∧
      q'.app = t

/-- The application has taken the message. -/
theorem inboundMessageAvailable_of_deliver {q : Connection σ} {i : Nat} {t : σ}
    (hc : (q.channels i).lastInHeader.hf.mt ≠ mtChunkSize) (ha : (q.channels i).lastInHeader.hf.mt ≠ mtAbortMessage)
    (ht : deliver a q.app (.message (q.channels i).lastInHeader (q.channels i).inputData) = some t) :
    (q.inboundMessageAvailable a i).filter (fun q => (q.channels i).inputData.isEmpty) =
      some { q.setChannel i { q.channels i with inputData := [] } with app := t } := by
  rw [inboundMessageAvailable]
  simp only [if_neg hc, if_neg ha]
  simp only [deliver] at ht
  split at ht
  · rename_i t' he
    cases ht
    rw [he, Option.map_some, Option.filter_some, if_pos]
    show ((q.setChannel i _).channels i).inputData.isEmpty = true
    rw [setChannel_channels]
    rfl
  · cases ht

theorem channel_of_idle {p : Connection τ} {i : Nat} (hp : Idle p i) :
    { p.channels i with lastOutProcBytes := 0 } = p.channels i := by
  rw [Idle] at hp
  cases hc : p.channels i
  rw [hc] at hp
  simp only at hp
  rw [hp]

theorem message_delivers {p : Connection τ} {m : Message} (hs : Allowed p (.message m)) : Delivers p (.message m) := by
  intro σ a q t h ht
  obtain ⟨hi, hp, hsi, hl, hmt⟩ := hs
  simp only [List.mem_cons, List.not_mem_nil, or_false, not_or] at hmt
  obtain ⟨hc, hab, ha, hv⟩ := hmt
  by_cases hne : m.body = []
  · rw [handedOn, if_pos hne] at ht
    cases ht
    have hsend : p.sendMessage m = (true, p) := by
      simp only [sendMessage, hne, chunkLoop_nil, channel_of_idle hp, setChannel, Function.update_eq_self]
    refine ⟨[], q, ?_, .refl q, ?_, rfl⟩
    · rw [send, hsend, List.append_nil]
    · rw [send, hsend]
      exact h
  · rw [handedOn, if_neg hne] at ht
    have hd : deliver a q.app (.message (received m.ci
        (lastType p.outboundChunkSize m.header (p.channels m.ci) m.body.length) m.header.hf) m.body) = some t := by
      rw [← ht]
      exact (bind_pure _).symm
    obtain ⟨bytes, hb, hcons⟩ := sendMessage_consumes (by have := h.chunkSize_ge; omega) hi hp hsi hl hne hv ha
    have hst := h.channels m.ci
    have hcol : (collected p q m).channels m.ci = receivedFrom m.header (p.channels m.ci) (q.channels m.ci)
        (lastType p.outboundChunkSize m.header (p.channels m.ci) m.body.length) 0 m.body := setChannel_channels ..
    refine ⟨bytes, _, ?_, hcons h.selected h.chunkSize hst (inboundMessageAvailable_of_deliver ?_ ?_ ?_), ?_, rfl⟩
    · rw [send, hb]
      rfl
    · rw [hcol]
      exact hc
    · rw [hcol]
      exact hab
    · rw [hcol]
      exact hd
    · rw [send, hb, hcol, collected, setChannel_setChannel]
      exact h.setChannel ((sentTo_id ..).trans (h.id _))
        (inStep_sent hst (follows_header hi hp hsi) _ (fun h0 => absurd rfl h0) []) t _

/-! ## A chunk of a frame -/

/-- The bytes of a frame that a channel counts behind a chunk. -/
theorem advance_eq {d : Channel} (ml : BitVec 24) {n : Nat} (hm : d.lastInHeader.hf.ml = ml)
    (hl : d.lastInProcBytes + n ≤ ml.toNat) :
    advance d n = { d with lastInProcBytes := (d.lastInProcBytes + n) % ml.toNat } := by
  have h24 := ml.isLt
  have hu : u32 (d.lastInProcBytes + n) = d.lastInProcBytes + n := u32_of_lt (by omega)
  have he : (if ml.toNat = d.lastInProcBytes + n then 0 else d.lastInProcBytes + n) =
      (d.lastInProcBytes + n) % ml.toNat := by
    split
    · rename_i h
      rw [← h, Nat.mod_self]
    · exact (Nat.mod_eq_of_lt (by omega)).symm
  rw [advance]
  simp only [hm, hu, he]

theorem sendChunk_eq {p : Connection τ} {h : Header} (hi : IsChannel h.ci) (data : List Byte) :
    sendChunk p h data =
      { p.setChannel h.ci (sentTo h (p.channels h.ci) (h.chooseType (p.channels h.ci)).1.ht
          (((p.channels h.ci).lastOutProcBytes + data.length) % h.hf.ml.toNat)) with
        outputBuffer := p.outputBuffer ++ (headerBytes h (p.channels h.ci) ++ data) } := by
  have hsend : p.sendRawData h h.ci data = (true, (h.chooseType (p.channels h.ci)).1,
      { p.setChannel h.ci (noted h (p.channels h.ci)) with
        outputBuffer := p.outputBuffer ++ (headerBytes h (p.channels h.ci) ++ data) }) := by
    simp only [sendRawData, writeTo_eq hi, if_true, List.append_assoc]
  rw [sendChunk, hsend]
  simp only [setChannel, Function.update_idem, Function.update_self]
  rfl

theorem chunk_delivers {p : Connection τ} {h : Header} {data : List Byte} (hs : Allowed p (.chunk h data)) :
    Delivers p (.chunk h data) := by
  intro σ a q t hag ht
  obtain ⟨hf, hmt, hsi, hl⟩ := hs
  have hst := hag.channels h.ci
  have hle := hst.procBytes_le hf
  have hlen : (p.channels h.ci).lastOutProcBytes + data.length ≤ h.hf.ml.toNat := by
    rw [hl, chunkSizeOf]
    omega
  refine ⟨headerBytes h (p.channels h.ci) ++ data, { q.setChannel h.ci (receivedFrom h (p.channels h.ci)
    (q.channels h.ci) (h.chooseType (p.channels h.ci)).1.ht
    (((p.channels h.ci).lastOutProcBytes + data.length) % h.hf.ml.toNat) []) with app := t },
    ?_, chunk_consumes hag.selected hst hf (by rw [hl, hag.chunkSize]) ?_, ?_, rfl⟩
  · rw [send, sendChunk_eq hf.isChannel]
  · have hd : deliver a q.app (.data h.hf.si.toNat data (p.channels h.ci).lastOutProcBytes h.hf.ml.toNat
        (h.chooseType (p.channels h.ci)).2.lastOutAbsTs (decide (h.hf.mt = mtAudioData))) = some t := by
      rw [← ht]
      exact (bind_pure _).symm
    have htd : taken a (q.setChannel h.ci (noticed h (p.channels h.ci) (q.channels h.ci))) h.ci h.hf.mt data =
        (q.setChannel h.ci (noticed h (p.channels h.ci) (q.channels h.ci))).takeData a h.ci
          (decide (h.hf.mt = mtAudioData)) data := by
      simp only [List.mem_cons, List.not_mem_nil, or_false] at hmt
      rw [taken]
      rcases hmt with e | e
      · rw [e, if_neg (by decide), if_pos rfl]
        rfl
      · rw [e, if_pos rfl]
        rfl
    have hsi' : ¬ maxStreamsCount ≤ h.hf.si.toNat := Nat.not_le.mpr hsi
    have hadv : advance (noticed h (p.channels h.ci) (q.channels h.ci)) data.length =
        receivedFrom h (p.channels h.ci) (q.channels h.ci) (h.chooseType (p.channels h.ci)).1.ht
          (((p.channels h.ci).lastOutProcBytes + data.length) % h.hf.ml.toNat) [] := by
      rw [advance_eq h.hf.ml rfl (by rw [← hst.procBytes] at hlen; exact hlen), ← hst.procBytes,
        ← hst.inputData]
      rfl
    rw [htd, takeData, setChannel_channels, hadv, setChannel_setChannel]
    simp only [deliver] at hd
    have hfed : (if a.inNet q.app h.hf.si.toNat then
        a.feedData q.app h.hf.si.toNat data (q.channels h.ci).lastInProcBytes h.hf.ml.toNat
          (h.chooseType (p.channels h.ci)).2.lastOutAbsTs (decide (h.hf.mt = mtAudioData))
      else some q.app) = some t := by
      rw [hst.procBytes]
      exact hd
    show (if maxStreamsCount ≤ h.hf.si.toNat then none else Option.map _ (if a.inNet q.app h.hf.si.toNat then
        a.feedData q.app h.hf.si.toNat data (q.channels h.ci).lastInProcBytes h.hf.ml.toNat
          (h.chooseType (p.channels h.ci)).2.lastOutAbsTs (decide (h.hf.mt = mtAudioData))
      else some q.app)) = _
    rw [if_neg hsi', hfed, Option.map_some]
  · rw [send, sendChunk_eq hf.isChannel]
    refine hag.setChannel ((sentTo_id ..).trans (hag.id _)) (inStep_sent hst hf _ (fun h0 => ?_) []) t _
    exact Nat.mod_lt _ (Nat.pos_of_ne_zero fun e => h0 (by rw [e, Nat.mod_zero]; omega))

/-! ## Chunk sizes and aborts -/

theorem length_writeUInt32 (value : Nat) : (writeUInt32 value).length = 4 := length_bytesOf ..

/-- A number that is written is the one that is processed. -/
theorem processUInt32_writeUInt32 {q : Connection σ} {i value : Nat} (hv : value < 2 ^ 32)
    (hi : (q.channels i).inputData = writeUInt32 value)
    (process : Connection σ → Nat → Option (Connection σ)) :
    q.processUInt32 i process = process (q.setChannel i { q.channels i with inputData := [] }) value := by
  have hl := length_writeUInt32 value
  have htake : (writeUInt32 value).take 4 = bytesOf 4 (ntohl (.ofNat 32 value)).toNat :=
    List.take_of_length_le (by omega)
  have hdrop : (writeUInt32 value).drop 4 = [] := List.drop_of_length_le (by omega)
  have hval : (ntohl (.ofNat 32 (valueOf (bytesOf 4 (ntohl (.ofNat 32 value)).toNat)))).toNat = value := by
    rw [ofNat_valueOf_bytesOf rfl, ntohl_ntohl, BitVec.toNat_ofNat, Nat.mod_eq_of_lt hv]
  have hn : ¬ (q.channels i).inputData.length < 4 := by rw [hi, hl]; omega
  rw [processUInt32]
  simp only [if_neg hn]
  rw [hi, htake, hdrop, hval]

/-- A message that fits into one chunk does not depend on the chunk size. -/
theorem chunkLoop_of_le {k k' fuel : Nat} {h : Header} {c : Channel} {internal : List Byte} (buffer : List Byte)
    (hi : IsChannel h.ci) (hc : c.lastOutProcBytes = 0) (hl : internal.length < 2 ^ 32) (hk : internal.length ≤ k)
    (hk' : internal.length ≤ k') :
    chunkLoop k fuel h c internal buffer true = chunkLoop k' fuel h c internal buffer true := by
  by_cases hne : internal = []
  · rw [hne, chunkLoop_nil, chunkLoop_nil]
  · cases fuel with
    | zero => rfl
    | succ fuel =>
      have hm : min k internal.length = internal.length := Nat.min_eq_right hk
      have hm' : min k' internal.length = internal.length := Nat.min_eq_right hk'
      rw [chunkLoop_succ k fuel buffer hi hne (by omega), chunkLoop_succ k' fuel buffer hi hne (by omega), hm, hm',
        List.drop_length, chunkLoop_nil, chunkLoop_nil]

theorem sendMessage_of_le {p : Connection τ} {m : Message} {k : Nat} (hi : IsChannel m.ci) (hp : Idle p m.ci)
    (hl : m.body.length < 2 ^ 32) (hk : m.body.length ≤ k) (hk' : m.body.length ≤ p.outboundChunkSize) :
    { p with outboundChunkSize := k }.sendMessage m =
      ((p.sendMessage m).1, { (p.sendMessage m).2 with outboundChunkSize := k }) := by
  have h : chunkLoop k m.body.length m.header (p.channels m.ci) m.body p.outputBuffer true =
      chunkLoop p.outboundChunkSize m.body.length m.header (p.channels m.ci) m.body p.outputBuffer true :=
    chunkLoop_of_le p.outputBuffer hi hp hl hk hk'
  simp only [sendMessage]
  rw [h]
  rfl

theorem isChannel_two : IsChannel 2 := ⟨by decide, by decide⟩

/-- A number is sent to a receiver that processes it. -/
theorem genericMessage_consumes {p : Connection τ} (mt : BitVec 8) (value : Nat) (hk : 128 ≤ p.outboundChunkSize)
    (hp : Idle p 2) (hv : value < 2 ^ 32) (hmt : mt ≠ mtVideoData ∧ mt ≠ mtAudioData) :
    ∃ bytes, (∀ k, 128 ≤ k → { p with outboundChunkSize := k }.sendMessage (genericMessage mt value) =
        (true, { behindMessage p (genericMessage mt value) bytes with outboundChunkSize := k })) ∧
      ∀ {σ : Type} {a : App σ} {q q' : Connection σ} (process : Connection σ → Nat → Option (Connection σ)),
        Agree p q →
        (∀ q : Connection σ, (q.channels 2).lastInHeader.hf.mt = mt →
          q.inboundMessageAvailable a 2 = q.processUInt32 2 process) →
        (process (q.setChannel 2 (receivedFrom (genericMessage mt value).header (p.channels 2) (q.channels 2)
            ((genericMessage mt value).header.chooseType (p.channels 2)).1.ht 0 [])) value).filter
          (fun q => (q.channels 2).inputData.isEmpty) = some q' →
        Consumes a q bytes q' := by
  have hl4 : (genericMessage mt value).body.length = 4 := length_writeUInt32 value
  have hlast : lastType p.outboundChunkSize (genericMessage mt value).header (p.channels 2)
      (genericMessage mt value).body.length = ((genericMessage mt value).header.chooseType (p.channels 2)).1.ht := by
    rw [lastType, if_pos (by omega)]
  obtain ⟨bytes, hb, hcons⟩ := sendMessage_consumes (p := p) (m := genericMessage mt value) (by omega) isChannel_two hp
    (by decide : (0 : BitVec 32) ≠ 0xffffffff) (by omega) (List.length_pos_iff.mp (by omega)) hmt.1 hmt.2
  refine ⟨bytes, fun k hk' => ?_, ?_⟩
  · rw [sendMessage_of_le isChannel_two hp (by omega) (by omega) (by omega), hb]
  · intro σ a q q' process hag hproc he
    refine hcons hag.selected hag.chunkSize (hag.channels 2) ?_
    have hcol : (collected p q (genericMessage mt value)).channels 2 = receivedFrom (genericMessage mt value).header
        (p.channels 2) (q.channels 2) ((genericMessage mt value).header.chooseType (p.channels 2)).1.ht 0
        (writeUInt32 value) := by
      rw [← hlast]
      exact setChannel_channels ..
    have hset : (collected p q (genericMessage mt value)).setChannel 2
        { (collected p q (genericMessage mt value)).channels 2 with inputData := [] } =
        q.setChannel 2 (receivedFrom (genericMessage mt value).header (p.channels 2) (q.channels 2)
          ((genericMessage mt value).header.chooseType (p.channels 2)).1.ht 0 []) := by
      rw [hcol, ← hlast]
      exact setChannel_setChannel ..
    show ((collected p q (genericMessage mt value)).inboundMessageAvailable a 2).filter _ = _
    rw [hproc _ (by rw [hcol]; rfl), processUInt32_writeUInt32 hv (by rw [hcol]; rfl), hset]
    exact he

theorem Agree.withChunkSize {p : Connection τ} {q : Connection σ} (h : Agree p q) {k : Nat} (hk : 128 ≤ k) :
    Agree { p with outboundChunkSize := k } { q with inboundChunkSize := k } where
  selected := h.selected
  chunkSize := rfl
  chunkSize_ge := hk
  id := h.id
  channels := h.channels

/-- Both ends behind a number that has been sent. -/
theorem agree_behindMessage {p : Connection τ} {q : Connection σ} (h : Agree p q) (mt : BitVec 8) (value : Nat)
    (hp : Idle p 2) (bytes : List Byte) :
    Agree (behindMessage p (genericMessage mt value) bytes)
      (q.setChannel 2 (receivedFrom (genericMessage mt value).header (p.channels 2) (q.channels 2)
        ((genericMessage mt value).header.chooseType (p.channels 2)).1.ht 0 [])) := by
  have hl4 : (genericMessage mt value).body.length = 4 := length_writeUInt32 value
  have hk := h.chunkSize_ge
  have hlast : lastType p.outboundChunkSize (genericMessage mt value).header (p.channels 2)
      (genericMessage mt value).body.length = ((genericMessage mt value).header.chooseType (p.channels 2)).1.ht := by
    rw [lastType, if_pos (by omega)]
  rw [← hlast]
  exact h.setChannel ((sentTo_id ..).trans (h.id _))
    (inStep_sent (h.channels 2) (follows_header (m := genericMessage mt value) isChannel_two hp
      (by decide : (0 : BitVec 32) ≠ 0xffffffff)) _ (fun h0 => absurd rfl h0) []) q.app _

theorem chunkSize_delivers {p : Connection τ} {size : Nat} (hs : Allowed p (.chunkSize size)) :
    Delivers p (.chunkSize size) := by
  intro σ a q t h ht
  obtain ⟨hp, hmax⟩ := hs
  cases ht
  have hk := h.chunkSize_ge
  by_cases hle : size ≤ p.outboundChunkSize
  · have hsend : send p (.chunkSize size) = p := by
      rw [send, trySetOutboundChunkSize, if_pos hle]
    rw [hsend]
    exact ⟨[], q, (List.append_nil _).symm, .refl q, h, rfl⟩
  · obtain ⟨bytes, hb, hcons⟩ := genericMessage_consumes mtChunkSize size hk hp (by omega) (by decide)
    have hsend : send p (.chunkSize size) =
        { behindMessage p (genericMessage mtChunkSize size) bytes with outboundChunkSize := size } := by
      rw [send, trySetOutboundChunkSize, if_neg hle, hb size (by omega)]
    rw [hsend]
    refine ⟨bytes, _, rfl, hcons processChunkSize h (fun q hq => ?_) ?_,
      (agree_behindMessage h mtChunkSize size hp bytes).withChunkSize (by omega), rfl⟩
    · rw [inboundMessageAvailable]
      simp only [if_pos hq]
    · rw [processChunkSize, if_neg (by omega), Option.filter_some, if_pos]
      show ((q.setChannel 2 _).channels 2).inputData.isEmpty = true
      rw [setChannel_channels]
      rfl

theorem reset_inStep (c d : Channel) : InStep c.reset d.reset [] :=
  ⟨rfl, rfl, rfl, rfl, fun h => absurd rfl h, fun h => absurd rfl h⟩

theorem Agree.reset {p : Connection τ} {q : Connection σ} (h : Agree p q) (i : Nat) :
    Agree (p.setChannel i (p.channels i).reset) (q.setChannel i (q.channels i).reset) :=
  h.setChannel (c := (p.channels i).reset) (d := (q.channels i).reset) (h.id i) (reset_inStep _ _) q.app p.outputBuffer

theorem abort_delivers {p : Connection τ} {i : Nat} (hs : Allowed p (.abort i)) : Delivers p (.abort i) := by
  intro σ a q t h ht
  obtain ⟨hp, hi⟩ := hs
  cases ht
  have hk := h.chunkSize_ge
  by_cases h0 : (p.channels i).lastOutProcBytes = 0
  · have hsend : send p (.abort i) = p := by
      rw [send, abortChannel, if_neg (not_not.mpr h0)]
    rw [hsend]
    exact ⟨[], q, (List.append_nil _).symm, .refl q, h, rfl⟩
  · obtain ⟨bytes, hb, hcons⟩ := genericMessage_consumes mtAbortMessage i hk hp
      (by have : i < 319 := hi; omega) (by decide)
    have hag := agree_behindMessage h mtAbortMessage i hp bytes
    have hsend : send p (.abort i) = (behindMessage p (genericMessage mtAbortMessage i) bytes).setChannel i
        ((behindMessage p (genericMessage mtAbortMessage i) bytes).channels i).reset := by
      have hbk := hb p.outboundChunkSize hk
      rw [send, abortChannel, if_pos h0, h.id]
      rw [show ({ p with outboundChunkSize := p.outboundChunkSize } : Connection τ) = p from rfl] at hbk
      rw [hbk]
      rfl
    rw [hsend]
    refine ⟨bytes, _, rfl, hcons processAbortMessage h (fun q hq => ?_) ?_,
      hag.reset i, rfl⟩
    · have hne : ¬ (q.channels 2).lastInHeader.hf.mt = mtChunkSize := by
        rw [hq]
        decide
      rw [inboundMessageAvailable]
      simp only [if_neg hne, if_pos hq]
    · rw [processAbortMessage, if_neg (Nat.not_le.mpr hi), Option.filter_some, if_pos]
      by_cases h2 : 2 = i
      · subst h2
        rw [setChannel_channels]
        rfl
      · show (@Function.update Nat (fun _ => Channel) _ _ i _ 2).inputData.isEmpty = true
        rw [Function.update_of_ne h2, setChannel_channels]
        rfl

/-- Each thing sent is handed on as it was, and the two ends agree behind it. -/
theorem send_delivers {p : Connection τ} {s : Send} (hs : Allowed p s) : Delivers p s := by
  match s, hs with
  | .message m, hs => exact message_delivers hs
  | .chunk h data, hs => exact chunk_delivers hs
  | .chunkSize size, hs => exact chunkSize_delivers hs
  | .abort i, hs => exact abort_delivers hs

/-! ## A run -/

/-- Each thing is sent when it may be. -/
def AllAllowed : Connection τ → List Send → Prop
  | _, [] => True
  | p, s :: run => Allowed p s ∧ AllAllowed (send p s) run

def sendAll (p : Connection τ) (run : List Send) : Connection τ := run.foldl send p

/-- What a run makes the receiver hand on. -/
def allHandedOn : Connection τ → List Send → List Delivery
  | _, [] => []
  | p, s :: run => handedOn p s ++ allHandedOn (send p s) run

theorem sendAll_consumes {p : Connection τ} {run : List Send} (hr : AllAllowed p run) :
    ∀ {q : Connection σ} {t : σ}, Agree p q → (allHandedOn p run).foldlM (deliver a) q.app = some t →
      ∃ bytes q', (sendAll p run).outputBuffer = p.outputBuffer ++ bytes ∧ Consumes a q bytes q' ∧
        Agree (sendAll p run) q' ∧ q'.app = t := by
  induction run generalizing p with
  | nil =>
    intro q t h ht
    cases ht
    exact ⟨[], q, (List.append_nil _).symm, .refl q, h, rfl⟩
  | cons s run ih =>
    intro q t h ht
    obtain ⟨hs, hr⟩ := hr
    rw [allHandedOn, List.foldlM_append] at ht
    obtain ⟨u, hu, ht⟩ := Option.bind_eq_some_iff.mp ht
    obtain ⟨bytes, q₁, hb, hc, hag, hq⟩ := send_delivers hs _ a q u h hu
    obtain ⟨bytes', q₂, hb', hc', hag', hq'⟩ := ih hr hag (hq ▸ ht)
    refine ⟨bytes ++ bytes', q₂, ?_, hc.trans hc', hag', hq'⟩
    rw [← List.append_assoc, ← hb]
    exact hb'

/-- Nothing is left to do with no bytes. -/
theorem run_nil {p : Connection σ} (h : p.selectedChannel = none) :
    Resumable.run (processTurn a) rounds p [] = .ok (p, []) := by
  rw [(resumable a).run_eq, processTurn_of_none h]
  rfl

/-- However the bytes arrive. -/
theorem Consumes.runParts {p q : Connection σ} {bytes : List Byte} (h : Consumes a p bytes q)
    (hp : p.selectedChannel = none) (hq : q.selectedChannel = none) {parts : List (List Byte)}
    (hb : parts.flatten = bytes) : runParts (processBytes a) p [] parts = .ok (q, []) := by
  have hrun : Resumable.run (processTurn a) rounds p parts.flatten = .ok (q, []) := by
    have h := h []
    rw [List.append_nil] at h
    rw [hb, h, run_nil hq]
  match parts with
  | [] =>
    rw [List.flatten_nil, run_nil hp] at hrun
    rw [XH.runParts, ← hrun]
  | part :: parts => exact ((resumable a).runParts_eq p [] part parts).trans hrun

/-- However the bytes of a run arrive, a new receiver hands on what has been
sent, in its order, and agrees with the sender behind it. -/
theorem sent_delivered {s : τ} {t t' : σ} {run : List Send} (hr : AllAllowed (initial s) run)
    (ht : (allHandedOn (initial s) run).foldlM (deliver a) t = some t') {parts : List (List Byte)}
    (hp : parts.flatten = (sendAll (initial s) run).outputBuffer) :
    ∃ q, runParts (processBytes a) (initial t) [] parts = .ok (q, []) ∧ q.app = t' ∧
      Agree (sendAll (initial s) run) q := by
  obtain ⟨bytes, q, hb, hc, hag, hq⟩ := sendAll_consumes hr (agree_initial s t) ht
  refine ⟨q, hc.runParts rfl hag.selected ?_, hq, hag⟩
  rw [hp, hb]
  rfl

/-- An application that keeps the bodies of its messages. -/
def keepBodies : App (List Byte) where
  inNet _ _ := false
  feedData s _ _ _ _ _ _ := some s
  inboundMessage s _ body := some (s ++ body, [])

/-- Two messages on a channel, and a chunk size between them. -/
def twoMessages : List Send :=
  [.message ⟨3, 0, 20, 1, true, [7, 8]⟩, .chunkSize 256, .message ⟨3, 5, 20, 1, false, [9]⟩]

theorem sent_delivered_twoMessages :
    ∃ q, runParts (processBytes keepBodies) (initial []) [] [(sendAll (initial ()) twoMessages).outputBuffer] =
        .ok (q, []) ∧ q.app = [7, 8, 9] ∧ Agree (sendAll (initial ()) twoMessages) q :=
  sent_delivered
    (show AllAllowed (initial ()) twoMessages from
      ⟨⟨⟨by decide, by decide⟩, rfl, by decide, by decide, by decide⟩, ⟨rfl, by decide⟩,
        ⟨⟨by decide, by decide⟩, rfl, by decide, by decide, by decide⟩, trivial⟩)
    rfl (List.append_nil _)

end XH.Proof.Live
