import Xhome.Impl.Control.Pipeline

/-!
# Clients of the control server

All channels share one decoder, and the bytes it keeps do not say whose they
are. A chunk that arrives while the bytes of another channel are kept is
decoded behind them.

* `decode_incremental`: the decoder does not depend on how a stream is cut;
* `Undisturbed`: every chunk finds no bytes kept, or those of its own channel;
* `messages_of_own_bytes`: in such a run a channel's messages are those of the
  channel alone;
* `messages_of_stream`: the messages of a single channel and whether it is
  closed do not depend on how its stream is cut.
-/

namespace XH.Proof.Control

open XH.Impl.Control

/-! ## The decoder -/

theorem readHeader_append {buf : List Byte} (h : headerSize ≤ buf.length) (more : List Byte) :
    readHeader (buf ++ more) = ((readHeader buf).1, (readHeader buf).2 ++ more) := by
  have hk : ∀ k, k + 4 ≤ headerSize → ((buf ++ more).drop k).take 4 = (buf.drop k).take 4 := by
    intro k hk
    rw [List.drop_append_of_le_length (by omega), List.take_append_of_le_length (by rw [List.length_drop]; omega)]
  simp only [readHeader, hk 0 (by decide), hk 4 (by decide), hk 8 (by decide), hk 12 (by decide),
    hk 16 (by decide), List.drop_append_of_le_length h]

/-- The decoder waits, or it has read a frame and more bytes do not matter. -/
theorem decode_cases {buf rest : List Byte} {r : Except Fault (Option Message)} (h : decode buf = (r, rest)) :
    (r = .ok none ∧ rest = buf) ∨
      (rest.length < buf.length ∧ ∀ more, decode (buf ++ more) = (r, rest ++ more)) := by
  unfold decode at h
  split at h
  · obtain ⟨rfl, rfl⟩ := Prod.mk.inj h
    exact .inl ⟨rfl, rfl⟩
  rename_i hlen
  have hd : (readHeader buf).2 = buf.drop headerSize := rfl
  have happ := readHeader_append (Nat.le_of_not_lt hlen)
  have hpos : 0 < headerSize := by decide
  generalize readHeader buf = hr at h hd happ
  obtain ⟨header, body⟩ := hr
  dsimp only at h hd happ
  have hbody : body.length + headerSize = buf.length := by rw [hd, List.length_drop]; omega
  split at h
  · obtain ⟨rfl, rfl⟩ := Prod.mk.inj h
    exact .inl ⟨rfl, rfl⟩
  rename_i hn
  have hmore : ∀ more : List Byte, ¬ (buf ++ more).length < headerSize ∧
      ¬ ((body ++ more).length : Int) < (header.bodyLength.getD 0).toInt := by
    intro more
    rw [List.length_append, List.length_append]
    omega
  right
  split at h
  · obtain ⟨rfl, rfl⟩ := Prod.mk.inj h
    rename_i hneg
    refine ⟨by omega, fun more => ?_⟩
    rw [decode, if_neg (hmore more).1, happ]
    dsimp only
    rw [if_neg (hmore more).2, if_pos hneg]
  · rename_i hneg
    have htake : (header.bodyLength.getD 0).toNat ≤ body.length := by
      rw [BitVec.toInt_eq_toNat_cond] at hn hneg
      split at hn <;> omega
    obtain ⟨rfl, rfl⟩ := Prod.mk.inj h
    refine ⟨by rw [List.length_drop]; omega, fun more => ?_⟩
    rw [decode, if_neg (hmore more).1, happ]
    dsimp only
    rw [if_neg (hmore more).2, if_neg hneg, List.take_append_of_le_length htake, List.drop_append_of_le_length htake]

theorem decode_incremental : Incremental decode where
  shorter h := by
    rcases decode_cases h with ⟨-, rfl⟩ | ⟨hl, -⟩
    · exact Nat.le_refl _
    · exact Nat.le_of_lt hl
  waits h he := by
    rcases decode_cases h with ⟨-, rfl⟩ | ⟨hl, -⟩
    · rfl
    · omega
  reads h := by
    rcases decode_cases h with ⟨e, -⟩ | ⟨hl, -⟩
    · cases e
    · exact hl
  decides h hne more := by
    rcases decode_cases h with ⟨e, rfl⟩ | ⟨-, hm⟩
    · exact absurd rfl (hne e)
    · exact hm more

/-! ## Runs -/

section

variable (disconnect : List Byte → List Message × List Byte)

/-- Each chunk that is handed on finds no bytes kept, or those of its own
channel: `last` is the channel of the last chunk. -/
def Undisturbed (p : Pipeline) (last : Option ChannelId) : List Chunk → Prop
  | [] => True
  | e :: es =>
    (p.takes e → p.cumulation = [] ∨ last = some e.channel) ∧
      Undisturbed (messageReceived disconnect p e) (if p.takes e then some e.channel else last) es

/-- The bytes received on a channel. -/
def bytesOn (c : ChannelId) (es : List Chunk) : List Byte := (es.filter (·.channel = c)).flatMap (·.bytes)

variable {disconnect}

theorem messagesOf_append (p : Pipeline) (c d : ChannelId) (ms : List Message) (bs : List Byte)
    (ds : List ChannelId) :
    Pipeline.messagesOf ⟨bs, p.received ++ ms.map fun m => (d, m), ds⟩ c =
      p.messagesOf c ++ if d = c then ms else [] := by
  have hf : ((ms.map fun m => (d, m)).filter fun x => x.1 = c).map (·.2) = if d = c then ms else [] := by
    split
    · rename_i hd
      rw [List.filter_eq_self.mpr (by simp [hd]), List.map_map]
      exact List.map_id ms
    · rename_i hd
      rw [List.filter_eq_nil_iff.mpr (by simp [hd])]
      rfl
  rw [Pipeline.messagesOf, List.filter_append, List.map_append, hf]
  rfl

/-- What a chunk adds for its channel, and whether it closes it. -/
def outcome (disconnect : List Byte → List Message × List Byte) (kept bytes : List Byte) :
    List Message × List Byte × Bool :=
  let d := decodeAll decode (kept ++ bytes)
  match d.fault with
  | none => (d.frames, d.rest, false)
  | some _ => (d.frames ++ (disconnect d.rest).1, (disconnect d.rest).2, true)

/-- A chunk that is handed on. -/
theorem messageReceived_takes {p : Pipeline} {e : Chunk} (h : p.takes e) :
    messageReceived disconnect p e =
      { cumulation := (outcome disconnect p.cumulation e.bytes).2.1,
        received := p.received ++ (outcome disconnect p.cumulation e.bytes).1.map fun m => (e.channel, m),
        closed := if (outcome disconnect p.cumulation e.bytes).2.2 then e.channel :: p.closed else p.closed } := by
  obtain ⟨f, hf⟩ : ∃ f, (decodeAll decode (p.cumulation ++ e.bytes)).fault = f := ⟨_, rfl⟩
  cases f <;> simp only [messageReceived, if_pos h, outcome, hf] <;> rfl

theorem messageReceived_passes {p : Pipeline} {e : Chunk} (h : ¬ p.takes e) : messageReceived disconnect p e = p :=
  if_neg h

/-- The whole run against the run with the chunks of one channel only. -/
structure Purged (c : ChannelId) (last : Option ChannelId) (p q : Pipeline) : Prop where
  messages : p.messagesOf c = q.messagesOf c
  closed : c ∈ p.closed ↔ c ∈ q.closed
  kept : c ∉ p.closed → q.cumulation = if last = some c then p.cumulation else []

section

variable {c : ChannelId} {last : Option ChannelId} {p q : Pipeline} {e : Chunk} {es : List Chunk}

/-- A chunk of the channel. -/
theorem Purged.own (h : Purged c last p q) (hc : e.channel = c)
    (hok : p.takes e → p.cumulation = [] ∨ last = some e.channel) :
    Purged c (if p.takes e then some e.channel else last) (messageReceived disconnect p e)
      (messageReceived disconnect q e) := by
  subst hc
  have htakes : p.takes e ↔ q.takes e := by rw [Pipeline.takes, Pipeline.takes, h.closed]
  by_cases ht : p.takes e
  · have hkept : q.cumulation = p.cumulation := by
      rw [h.kept ht.1]
      split
      · rfl
      · exact ((hok ht).resolve_right ‹_›).symm
    rw [messageReceived_takes ht, messageReceived_takes (htakes.mp ht), hkept, if_pos ht]
    refine ⟨?_, ?_, fun _ => ?_⟩
    · rw [messagesOf_append, messagesOf_append, h.messages]
    · dsimp only
      split
      · simp only [List.mem_cons, true_or]
      · exact h.closed
    · rw [if_pos rfl]
  · rw [messageReceived_passes ht, messageReceived_passes (htakes.not.mp ht), if_neg ht]
    exact h

/-- A chunk of another channel. -/
theorem Purged.other (h : Purged c last p q) (hc : e.channel ≠ c)
    (hok : p.takes e → p.cumulation = [] ∨ last = some e.channel) :
    Purged c (if p.takes e then some e.channel else last) (messageReceived disconnect p e) q := by
  by_cases ht : p.takes e
  · have hmem : c ∈ (messageReceived disconnect p e).closed ↔ c ∈ p.closed := by
      rw [messageReceived_takes ht]
      dsimp only
      split
      · rw [List.mem_cons, or_iff_right hc.symm]
      · rfl
    refine ⟨?_, hmem.trans h.closed, fun hopen => ?_⟩
    · rw [messageReceived_takes ht, messagesOf_append, if_neg hc, List.append_nil]
      exact h.messages
    · rw [if_pos ht, if_neg (by simpa using hc), h.kept (hmem.not.mp hopen)]
      split
      · rename_i hl
        exact (hok ht).resolve_right (by rw [hl]; simpa using hc.symm)
      · rfl
  · rw [messageReceived_passes ht, if_neg ht]
    exact h

theorem Purged.run (h : Purged c last p q) (hu : Undisturbed disconnect p last es) :
    ∃ last', Purged c last' (receiveAll disconnect p es)
      (receiveAll disconnect q (es.filter fun e => e.channel = c)) := by
  induction es generalizing p q last with
  | nil => exact ⟨last, h⟩
  | cons e es ih =>
    obtain ⟨hok, hu⟩ := hu
    by_cases hc : e.channel = c
    · rw [List.filter_cons_of_pos (by simpa using hc)]
      exact ih (h.own hc hok) hu
    · rw [List.filter_cons_of_neg (by simpa using hc)]
      exact ih (h.other hc hok) hu

/-- A run with the chunks of an open channel only has decoded its bytes. -/
structure Streamed (c : ChannelId) (bs : List Byte) (q : Pipeline) : Prop where
  messages : q.messagesOf c = (decodeAll decode bs).frames
  kept : q.cumulation = (decodeAll decode bs).rest
  sound : (decodeAll decode bs).fault = none

theorem Streamed.step {bs : List Byte} (h : Streamed c bs q) (hc : e.channel = c) (hclosed : c ∉ q.closed)
    (hopen : c ∉ (messageReceived disconnect q e).closed) :
    Streamed c (bs ++ e.bytes) (messageReceived disconnect q e) := by
  subst hc
  by_cases hb : e.bytes = []
  · rw [messageReceived_passes fun ht => ht.2 hb, hb, List.append_nil]
    exact h
  have ht : q.takes e := ⟨hclosed, hb⟩
  have happ := decode_incremental.decodeAll_append bs e.bytes
  rw [Incremental.feed, h.sound, ← h.kept] at happ
  rw [messageReceived_takes ht] at hopen ⊢
  obtain ⟨f, hf⟩ : ∃ f, (decodeAll decode (q.cumulation ++ e.bytes)).fault = f := ⟨_, rfl⟩
  cases f with
  | some f => simp only [outcome, hf, if_true, List.mem_cons, true_or, not_true] at hopen
  | none =>
    simp only [outcome, hf]
    refine ⟨?_, ?_, ?_⟩
    · rw [messagesOf_append, if_pos rfl, happ, h.messages]
    · rw [happ]
    · rw [happ]
      exact hf

theorem closed_mono (es : List Chunk) (hc : c ∈ q.closed) : c ∈ (receiveAll disconnect q es).closed := by
  induction es generalizing q with
  | nil => exact hc
  | cons e es ih =>
    apply ih
    by_cases ht : q.takes e
    · rw [messageReceived_takes ht]
      dsimp only
      split
      · exact List.mem_cons_of_mem _ hc
      · exact hc
    · rwa [messageReceived_passes ht]

theorem Streamed.run {bs : List Byte} (h : Streamed c bs q) (hclosed : c ∉ q.closed)
    (hes : ∀ e ∈ es, e.channel = c) (hopen : c ∉ (receiveAll disconnect q es).closed) :
    Streamed c (bs ++ es.flatMap (·.bytes)) (receiveAll disconnect q es) := by
  induction es generalizing q bs with
  | nil =>
    rw [List.flatMap_nil, List.append_nil]
    exact h
  | cons e es ih =>
    have hstep : c ∉ (messageReceived disconnect q e).closed := fun hm => hopen (closed_mono es hm)
    have h' := h.step (hes e List.mem_cons_self) hclosed hstep
    rw [List.flatMap_cons, ← List.append_assoc]
    exact ih h' hstep (fun e' he => hes e' (List.mem_cons_of_mem e he)) hopen

/-- In a run in which no chunk meets the bytes of another channel, the messages
received for a channel are those of its own chunks, and as long as no exception
has closed it those of its bytes, however they were cut. -/
theorem messages_of_own_bytes (disconnect : List Byte → List Message × List Byte) {es : List Chunk}
    (h : Undisturbed disconnect .initial none es) (c : ChannelId) :
    (receiveAll disconnect .initial es).messagesOf c =
        (receiveAll disconnect .initial (es.filter fun e => e.channel = c)).messagesOf c ∧
      (c ∉ (receiveAll disconnect .initial es).closed →
        (receiveAll disconnect .initial es).messagesOf c = (decodeAll decode (bytesOn c es)).frames) := by
  have hstart : Purged c none .initial .initial := ⟨rfl, .rfl, fun _ => rfl⟩
  obtain ⟨last, hp⟩ := hstart.run h
  refine ⟨hp.messages, fun hopen => ?_⟩
  have hs : Streamed c [] .initial := ⟨rfl, rfl, rfl⟩
  have hall : ∀ e ∈ es.filter fun e => e.channel = c, e.channel = c := fun e he =>
    of_decide_eq_true (List.mem_filter.mp he).2
  rw [hp.messages, (hs.run (List.not_mem_nil) hall (hp.closed.not.mp hopen)).messages]
  rfl

end

end

/-- A registration with a guid of two letters, as `CodecUtil.encodeMessage` writes it. -/
def registFrame : List Byte :=
  [1, 0, 0, 0, 2, 0, 0, 0, 7, 0, 0, 0, 3, 0, 0, 0, 27, 0, 0, 0, 0, 0, 0, 0, 4, 0, 0, 0, 2, 0, 0, 0, 2, 0, 0, 0, 0x43,
    0x31, 2, 0, 0, 0, 1, 0, 0, 0, 0x4D]

/-! ## One channel -/

/-- The chunks of a stream. -/
def chunksOf (c : ChannelId) (parts : List (List Byte)) : List Chunk := parts.map fun bs => ⟨c, bs⟩

/-- What has been received on the only channel is what its bytes decode to. -/
structure Received (c : ChannelId) (bs : List Byte) (q : Pipeline) : Prop where
  messages : q.messagesOf c = (decodeAll decode bs).frames
  closed : c ∈ q.closed ↔ (decodeAll decode bs).fault ≠ none
  kept : c ∉ q.closed → q.cumulation = (decodeAll decode bs).rest

theorem Received.step {c : ChannelId} {bs : List Byte} {q : Pipeline} (h : Received c bs q) (more : List Byte) :
    Received c (bs ++ more) (messageReceived noCleanup q ⟨c, more⟩) := by
  have happ := decode_incremental.decodeAll_append bs more
  rcases eq_or_ne more [] with rfl | hm
  · rw [messageReceived_passes fun ht => ht.2 rfl, List.append_nil]
    exact h
  by_cases hc : c ∈ q.closed
  · -- behind an exception nothing is decoded
    rw [messageReceived_passes fun ht => ht.1 hc]
    obtain ⟨f, hf⟩ := Option.ne_none_iff_exists'.mp (h.closed.mp hc)
    rw [Incremental.feed, hf] at happ
    refine ⟨?_, ?_, fun hn => absurd hc hn⟩
    · rw [happ, h.messages]
    · rw [happ]
      exact iff_of_true hc (Option.some_ne_none f)
  · have hsound : (decodeAll decode bs).fault = none := not_not.mp (h.closed.not.mp hc)
    rw [Incremental.feed, hsound, ← h.kept hc] at happ
    rw [messageReceived_takes ⟨hc, hm⟩]
    obtain ⟨f, hf⟩ : ∃ f, (decodeAll decode (q.cumulation ++ more)).fault = f := ⟨_, rfl⟩
    cases f with
    | none =>
      simp only [outcome, hf]
      refine ⟨?_, ?_, fun _ => ?_⟩
      · rw [messagesOf_append, if_pos rfl, happ, h.messages]
      · rw [happ]
        exact iff_of_false hc (not_not.mpr hf)
      · rw [happ]
    | some f =>
      simp only [outcome, hf]
      refine ⟨?_, ?_, fun hn => absurd List.mem_cons_self hn⟩
      · rw [messagesOf_append, if_pos rfl, happ, h.messages, noCleanup, List.append_nil]
      · rw [happ]
        exact iff_of_true List.mem_cons_self (by rw [hf]; exact Option.some_ne_none f)

theorem Received.run {c : ChannelId} {bs : List Byte} {q : Pipeline} (h : Received c bs q) (parts : List (List Byte)) :
    Received c (bs ++ parts.flatten) (receiveAll noCleanup q (chunksOf c parts)) := by
  induction parts generalizing bs q with
  | nil =>
    rw [List.flatten_nil, List.append_nil]
    exact h
  | cons part parts ih =>
    rw [List.flatten_cons, ← List.append_assoc]
    exact ih (h.step part)

/-- Two splittings of a stream give the same messages, and both or neither end in an exception. -/
theorem messages_of_stream (c : ChannelId) {parts parts' : List (List Byte)} (h : parts.flatten = parts'.flatten) :
    (receiveAll noCleanup .initial (chunksOf c parts)).messagesOf c =
        (receiveAll noCleanup .initial (chunksOf c parts')).messagesOf c ∧
      (c ∈ (receiveAll noCleanup .initial (chunksOf c parts)).closed ↔
        c ∈ (receiveAll noCleanup .initial (chunksOf c parts')).closed) := by
  have hstart : Received c [] .initial := ⟨rfl, iff_of_false List.not_mem_nil (not_not.mpr rfl), fun _ => rfl⟩
  have h₁ := hstart.run parts
  have h₂ := hstart.run parts'
  rw [← h] at h₂
  exact ⟨h₁.messages.trans h₂.messages.symm, h₁.closed.trans h₂.closed.symm⟩

/-- A registration that arrives byte by byte. -/
theorem messages_of_stream_bytes :
    (receiveAll noCleanup .initial (chunksOf 0 (registFrame.map fun b => [b]))).messagesOf 0 =
        (receiveAll noCleanup .initial (chunksOf 0 [registFrame])).messagesOf 0 ∧
      (0 ∈ (receiveAll noCleanup .initial (chunksOf 0 (registFrame.map fun b => [b]))).closed ↔
        0 ∈ (receiveAll noCleanup .initial (chunksOf 0 [registFrame])).closed) :=
  messages_of_stream 0 (by decide)

/-- Half a header of one client swallows the whole frame of another. -/
theorem half_header_disturbs :
    ¬ ∀ es es' : List Chunk, ∀ c, es.filter (fun e => e.channel = c) = es'.filter (fun e => e.channel = c) →
      (receiveAll (fun rest => ([], rest)) .initial es).messagesOf c =
        (receiveAll (fun rest => ([], rest)) .initial es').messagesOf c := by
  intro h
  have h := h [⟨0, registFrame.take 10⟩, ⟨1, registFrame⟩] [⟨1, registFrame⟩] 1 (by decide +kernel)
  revert h
  decide +kernel

/-- Two clients that send whole frames. -/
theorem whole_frames_undisturbed :
    Undisturbed (fun rest => ([], rest)) .initial none [⟨0, registFrame⟩, ⟨1, registFrame⟩] ∧
      (receiveAll (fun rest => ([], rest)) .initial [⟨0, registFrame⟩, ⟨1, registFrame⟩]).messagesOf 1 =
        (decodeAll decode registFrame).frames := by
  have hu : Undisturbed (fun rest => ([], rest)) .initial none [⟨0, registFrame⟩, ⟨1, registFrame⟩] :=
    ⟨fun _ => .inl rfl, fun _ => .inl (by decide +kernel), trivial⟩
  refine ⟨hu, ?_⟩
  have h := (messages_of_own_bytes (fun rest => ([], rest)) hu 1).2 (by decide +kernel)
  rw [h]
  decide +kernel

end XH.Proof.Control
