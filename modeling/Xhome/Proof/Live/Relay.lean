import Mathlib.Data.List.Forall2
import Xhome.Proof.Live.Joining

/-!
# From a publisher to its players

A publisher sends its frames to the server, which hands each piece on to all the
players of the stream. Players join at any time, also in the middle of a frame,
their sockets take what they can, and other things are sent to them
(`RelayOp`). Whatever happens in which order, each player gets a part of the
frames that one directly connected to the publisher would get, each of them
whole and in its order: `relayed`.
-/

namespace XH.Proof.Live

open Impl.Live Impl.Live.Connection Impl.Live.OutStream

variable {τ ν : Type} {c : Codecs ν} {si : Nat} {ch : Bool → Nat}

/-! ## The server and what happens to it -/

/-- A publisher, the server's end of its connection with the players of its
stream, and each player as it was when it joined, with the number of its stream. -/
structure Relay (τ ν : Type) where
  publisher : Connection Unit
  server : Connection (InStream τ ν)
  joined : List (Nat × Player τ ν)

inductive RelayOp (τ ν : Type) where
  /-- The publisher sends something, and its bytes arrive in parts. -/
  | publish (x : Send) (parts : List (List Byte))
  | join (si : Nat) (x : Player τ ν)
  /-- The socket of the `i`-th player takes `n` bytes. -/
  | drain (i n : Nat)
  /-- Something else is sent to the `i`-th player. -/
  | send (i : Nat) (x : Send)

def withOutStreams (q : Connection (InStream τ ν)) (outStreams : List (Player τ ν)) : Connection (InStream τ ν) :=
  { q with app := { q.app with outStreams := outStreams } }

def drained (n : Nat) (x : Player τ ν) : Player τ ν := { x with drained := x.drained + n }

def sentToo (y : Send) (x : Player τ ν) : Player τ ν :=
  { x with stream := signaled x.stream x.connection y, connection := send x.connection y }

def Relay.step (c : Codecs ν) (si : Nat) (R : Relay τ ν) : RelayOp τ ν → Option (Relay τ ν)
  | .publish x parts =>
    match runParts (processBytes (publishApp c si)) R.server [] parts with
    | .ok (q, []) => some ⟨send R.publisher x, q, R.joined⟩
    | _ => none
  | .join si x => some ⟨R.publisher, { R.server with app := R.server.app.link c x }, (si, x) :: R.joined⟩
  | .drain i n => some ⟨R.publisher, withOutStreams R.server (R.server.app.outStreams.modify i (drained n)), R.joined⟩
  | .send i x => some ⟨R.publisher, withOutStreams R.server (R.server.app.outStreams.modify i (sentToo x)), R.joined⟩

def Relay.run (c : Codecs ν) (si : Nat) (R : Relay τ ν) (ops : List (RelayOp τ ν)) : Option (Relay τ ν) :=
  ops.foldlM (Relay.step c si) R

/-- The parser takes what sets the codec up. -/
def Accepts (c : Codecs ν) (b : Bool) (data : List Byte) : Prop :=
  if b then 4 ≤ data.length ∧ c.initAudioAAC (data.drop 2) = true else c.initVideoH264 data = true

/-- The frames of stream `si` come on the channels `ch`, the audio and the video
each on its own, and nothing else does. What sets a codec up comes in one chunk
that the parser takes. The publisher ends the frames that it begins, and keeps
its chunk size, as `processChunkSize` does not hand a new one on to the players. -/
def MayPublish (c : Codecs ν) (si : Nat) (ch : Bool → Nat) (u : Connection Unit) : Send → Prop
  | .chunk h d =>
    if h.hf.si.toNat = si then
      h.ci = ch (decide (h.hf.mt = mtAudioData)) ∧
        ((u.channels h.ci).lastOutProcBytes = 0 → SetsUp (decide (h.hf.mt = mtAudioData)) d →
          d.length = h.hf.ml.toNat ∧ Accepts c (decide (h.hf.mt = mtAudioData)) d)
    else ∀ b, ch b ≠ h.ci
  | .chunkSize _ => False
  | .message m => ∀ b, ch b ≠ m.ci
  | .abort i => ∀ b, ch b ≠ 2 ∧ ch b ≠ i

def MayRelay (c : Codecs ν) (si : Nat) (ch : Bool → Nat) (R : Relay τ ν) : RelayOp τ ν → Prop
  | .publish x parts => Allowed R.publisher x ∧ MayPublish c si ch R.publisher x ∧
    (send R.publisher x).outputBuffer = R.publisher.outputBuffer ++ parts.flatten
  | .join si x => New si x ∧ x.stream.feederChunkSize = R.publisher.outboundChunkSize
  | .drain _ _ => True
  | .send i y => ∀ x₀ x, R.joined[i]? = some x₀ → R.server.app.outStreams[i]? = some x →
    Allowed x.connection y ∧ Elsewhere x₀.1 (fun b => (x.stream.track b).channel) y

def OrderlyRelay (c : Codecs ν) (si : Nat) (ch : Bool → Nat) : Relay τ ν → List (RelayOp τ ν) → Prop
  | _, [] => True
  | R, op :: ops => MayRelay c si ch R op ∧ ∀ R', R.step c si op = some R' → OrderlyRelay c si ch R' ops

/-! ## The invariant -/

/-- `D` is what one that is directly connected to the publisher has put together. -/
structure RelayInv (ch : Bool → Nat) (R : Relay τ ν) (D : Bool → Assembly) : Prop where
  agree : Agree R.publisher R.server
  counted : ∀ b, (D b).part.length = (R.publisher.channels (ch b)).lastOutProcBytes
  kept : Kept R.publisher.outboundChunkSize D R.server.app
  players : List.Forall₂ (fun x₀ x => x₀.2.stream.feederChunkSize = R.publisher.outboundChunkSize ∧
    Playing x₀.1 x₀.2 x D fun b => progressOf R.publisher (ch b)) R.joined R.server.app.outStreams

/-- The frame under way has come as far as the channel says. -/
theorem RelayInv.progress {R : Relay τ ν} {D : Bool → Assembly} (h : RelayInv ch R D) (b : Bool) :
    (progressOf R.publisher (ch b) = none → (D b).part = []) ∧
      ∀ n total, progressOf R.publisher (ch b) = some (n, total) → (D b).part.length = n ∧ 0 < n ∧ n < total := by
  have hc := h.counted b
  refine ⟨fun e => ?_, fun n total e => ?_⟩
  · rw [progressOf] at e
    split at e
    · rename_i h0
      exact List.eq_nil_of_length_eq_zero (hc.trans h0)
    · cases e
  · rw [progressOf] at e
    split at e
    · cases e
    · rename_i h0
      cases e
      exact ⟨hc, Nat.pos_of_ne_zero h0, ((h.agree.channels (ch b)).underWay h0).2⟩

/-! ## A piece is handed on -/

theorem forall₂_map_right {α β γ : Type} {r : α → β → Prop} {r' : α → γ → Prop} {f : β → γ} {l : List α} {l' : List β}
    (h : List.Forall₂ r l l') (hf : ∀ a b, r a b → r' a (f b)) : List.Forall₂ r' l (l'.map f) := by
  rw [List.forall₂_map_right_iff]
  exact h.imp fun a b hab => hf a b hab

/-- A piece that is taken, and what sets the codec up is kept. -/
theorem cacheCodecInit_some {s s' : InStream τ ν} {d : List Byte} {n : Nat} {b : Bool}
    (he : s.cacheCodecInit c d n b = some s') :
    s'.outStreams = s.outStreams ∧ s'.lastTime = s.lastTime ∧
      (s'.codecInit = s.codecInit ∨ n = 0 ∧ SetsUp b d ∧ s'.codecInit = Function.update s.codecInit b d) := by
  cases b with
  | true =>
    simp only [InStream.cacheCodecInit, if_true] at he
    split at he
    · rename_i h
      have hs : SetsUp true d := by
        rw [SetsUp, if_pos rfl, Bool.and_eq_true, beq_iff_eq, beq_iff_eq]
        exact h.2
      rw [InStream.initializeAudioCapabilities] at he
      split at he
      · cases he
      · split at he
        · cases he
          exact ⟨rfl, rfl, .inr ⟨h.1, hs, rfl⟩⟩
        · cases he
    · cases he
      exact ⟨rfl, rfl, .inl rfl⟩
  | false =>
    simp only [InStream.cacheCodecInit, Bool.false_eq_true, if_false] at he
    split at he
    · rename_i h
      have hs : SetsUp false d := by
        rw [SetsUp, if_neg Bool.false_ne_true, Bool.and_eq_true, beq_iff_eq, beq_iff_eq]
        exact h.2
      rw [InStream.initializeVideoCapabilities] at he
      split at he
      · cases he
      · split at he
        · cases he
          exact ⟨rfl, rfl, .inr ⟨h.1, hs, rfl⟩⟩
        · cases he
    · cases he
      exact ⟨rfl, rfl, .inl rfl⟩

/-- The stream of the publisher takes a piece that it may be sent. -/
theorem cacheCodecInit_accepts {d : List Byte} {n : Nat} {b : Bool} (ha : n = 0 → SetsUp b d → Accepts c b d)
    (s : InStream τ ν) : ∃ s', s.cacheCodecInit c d n b = some s' := by
  cases b with
  | true =>
    simp only [InStream.cacheCodecInit, if_true]
    split
    · rename_i h
      have hs : SetsUp true d := by
        rw [SetsUp, if_pos rfl, Bool.and_eq_true, beq_iff_eq, beq_iff_eq]
        exact h.2
      obtain ⟨h₁, h₂⟩ : 4 ≤ d.length ∧ c.initAudioAAC (d.drop 2) = true := ha h.1 hs
      rw [InStream.initializeAudioCapabilities, if_neg (Nat.not_lt.mpr h₁), if_pos h₂]
      exact ⟨_, rfl⟩
    · exact ⟨s, rfl⟩
  | false =>
    simp only [InStream.cacheCodecInit, Bool.false_eq_true, if_false]
    split
    · rename_i h
      have hs : SetsUp false d := by
        rw [SetsUp, if_neg Bool.false_ne_true, Bool.and_eq_true, beq_iff_eq, beq_iff_eq]
        exact h.2
      have h₂ : c.initVideoH264 d = true := ha h.1 hs
      have h₁ : ¬ d.length = 0 := by
        intro e
        rw [List.eq_nil_of_length_eq_zero e] at h
        exact absurd h.2.1 (by decide)
      rw [InStream.initializeVideoCapabilities, if_neg h₁, if_pos h₂]
      exact ⟨_, rfl⟩
    · exact ⟨s, rfl⟩

theorem feedData_accepts {s : InStream τ ν} {d : List Byte} {n : Nat} {b : Bool}
    (ha : n = 0 → SetsUp b d → Accepts c b d) (total : Nat) (time : Int) :
    ∃ s' time', s.feedData c d n total time b = some s' ∧
      (s'.outStreams = s.outStreams.map fun x => if x.enqueuedForDelete then x else x.feed c d n total time' b) ∧
      (s'.codecInit = s.codecInit ∨ n = 0 ∧ SetsUp b d ∧ s'.codecInit = Function.update s.codecInit b d) := by
  obtain ⟨s₁, hs₁⟩ := cacheCodecInit_accepts ha s
  obtain ⟨ho, -, hc⟩ := cacheCodecInit_some hs₁
  have he : s.feedData c d n total time b = some
      { s₁ with
        lastTime := Function.update s₁.lastTime b (if time < s₁.lastTime b then s₁.lastTime b else time)
        outStreams := s₁.outStreams.map fun x =>
          if x.enqueuedForDelete then x
          else x.feed c d n total (if time < s₁.lastTime b then s₁.lastTime b else time) b } := by
    rw [InStream.feedData, hs₁]
    rfl
  exact ⟨_, if time < s₁.lastTime b then s₁.lastTime b else time, he, by rw [← ho], hc⟩

/-! ## Each step -/

/-- What the publisher has sent in a step. -/
def published : RelayOp τ ν → List Send
  | .publish x _ => [x]
  | _ => []

/-- The step is taken and keeps the invariant. -/
def RelaySteps (c : Codecs ν) (si : Nat) (ch : Bool → Nat) (R : Relay τ ν) (D : Bool → Assembly) (op : RelayOp τ ν) :
    Prop :=
  ∃ R' D', R.step c si op = some R' ∧ RelayInv ch R' D' ∧ AllAllowed R.publisher (published op) ∧
    sendAll R.publisher (published op) = R'.publisher ∧
    (allHandedOn R.publisher (published op)).foldlM (deliver (frameApp si)) D = some D'

/-- What is published arrives. -/
theorem publish_step {R : Relay τ ν} {D D' : Bool → Assembly} {x : Send} {parts : List (List Byte)}
    (h : RelayInv ch R D) (ha : Allowed R.publisher x)
    (hp : (send R.publisher x).outputBuffer = R.publisher.outputBuffer ++ parts.flatten) {s' : InStream τ ν}
    (hs : (handedOn R.publisher x).foldlM (deliver (publishApp c si)) R.server.app = some s')
    (hD : (handedOn R.publisher x).foldlM (deliver (frameApp si)) D = some D')
    (hinv : ∀ q, Agree (send R.publisher x) q → q.app = s' → RelayInv ch ⟨send R.publisher x, q, R.joined⟩ D') :
    RelaySteps c si ch R D (.publish x parts) := by
  obtain ⟨bytes, q, hb, hc, hag, hq⟩ := send_delivers ha _ _ _ _ h.agree hs
  have hparts : parts.flatten = bytes := List.append_cancel_left (hp.symm.trans hb)
  have hrun := hc.runParts h.agree.selected hag.selected hparts
  refine ⟨⟨send R.publisher x, q, R.joined⟩, D', ?_, hinv q hag hq, ⟨ha, trivial⟩, rfl, ?_⟩
  · rw [Relay.step, hrun]
  · rw [published, allHandedOn, allHandedOn, List.append_nil]
    exact hD

/-- What the publisher sends besides its frames. -/
theorem other_step {R : Relay τ ν} {D : Bool → Assembly} {x : Send} {parts : List (List Byte)}
    (h : RelayInv ch R D) (ha : Allowed R.publisher x) (he : Elsewhere si ch x) (hx : ∀ size, x ≠ .chunkSize size)
    (hp : (send R.publisher x).outputBuffer = R.publisher.outputBuffer ++ parts.flatten) :
    RelaySteps c si ch R D (.publish x parts) := by
  refine publish_step h ha hp (handedOn_elsewhere (fun _ _ => rfl) (fun _ _ _ => rfl) he _)
    (handedOn_elsewhere (fun _ _ => rfl) (fun _ _ _ => rfl) he D) fun q hag hq => ?_
  have hch : ∀ b, (send R.publisher x).channels (ch b) = R.publisher.channels (ch b) := send_keeps ha he
  have hk := send_outboundChunkSize ha hx
  refine ⟨hag, fun b => ?_, ?_, ?_⟩
  · rw [hch]
    exact h.counted b
  · rw [hk, hq]
    exact h.kept
  · rw [hk, hq]
    simp only [progressOf, hch]
    exact h.players

theorem ch_ne (hch : ch true ≠ ch false) {b b' : Bool} (hb : b' ≠ b) : ch b' ≠ ch b := by
  intro e
  cases b <;> cases b'
  · exact hb rfl
  · exact hch e
  · exact hch e.symm
  · exact hb rfl

/-- A piece is put to what has been put together. -/
theorem frames_add_mono (D : Bool → Assembly) (b : Bool) (d : List Byte) (total : Nat) (t : Int) (b' : Bool) :
    ((D b').frames.map (·.2)).Sublist ((Function.update D b ((D b).add d total t) b').frames.map (·.2)) := by
  by_cases hb : b' = b
  · subst hb
    rw [Function.update_self, ((D b').add_eq d total t).2.2]
    split
    · exact (List.sublist_append_left _ _).map _
    · exact .refl _
  · rw [Function.update_of_ne hb]

theorem Kept.add {K n total : Nat} {D : Bool → Assembly} {s s' : InStream τ ν} {b : Bool} {d : List Byte}
    (hk : Kept K D s) (hn : n = 0 → (D b).part = []) (hset : n = 0 → SetsUp b d → d.length = total)
    (hle : d.length ≤ K) (h24 : total < 2 ^ 24)
    (hc : s'.codecInit = s.codecInit ∨ n = 0 ∧ SetsUp b d ∧ s'.codecInit = Function.update s.codecInit b d) (t : Int) :
    Kept K (Function.update D b ((D b).add d total t)) s' := by
  intro b' hne
  have hold : s'.codecInit b' = s.codecInit b' → SetsUp b' (s'.codecInit b') ∧ (s'.codecInit b').length < 2 ^ 24 ∧
      (s'.codecInit b').length ≤ K ∧
      s'.codecInit b' ∈ (Function.update D b ((D b).add d total t) b').frames.map (·.2) := by
    intro e
    rw [e] at hne ⊢
    obtain ⟨h₁, h₂, h₃, h₄⟩ := hk b' hne
    exact ⟨h₁, h₂, h₃, (frames_add_mono D b d total t b').subset h₄⟩
  rcases hc with e | ⟨h0, hs, e⟩
  · exact hold (by rw [e])
  · by_cases hb : b' = b
    · subst hb
      have hl := hset h0 hs
      rw [e, Function.update_self, Function.update_self]
      refine ⟨hs, by omega, hle, ?_⟩
      rw [((D b').add_eq d total t).2.2, hn h0, List.nil_append, if_pos hl, List.map_append]
      exact List.mem_append_right _ List.mem_cons_self
    · exact hold (by rw [e, Function.update_of_ne hb])

/-- A chunk of a frame of the stream. -/
theorem frame_step {R : Relay τ ν} {D : Bool → Assembly} {h : Header} {d : List Byte} {b : Bool}
    {parts : List (List Byte)} (hR : RelayInv ch R D) (hch : ch true ≠ ch false)
    (ha : Allowed R.publisher (.chunk h d)) (hsi : h.hf.si.toNat = si) (hb : decide (h.hf.mt = mtAudioData) = b)
    (hci : h.ci = ch b)
    (hset : (R.publisher.channels h.ci).lastOutProcBytes = 0 → SetsUp b d → d.length = h.hf.ml.toNat ∧ Accepts c b d)
    (hp : (send R.publisher (.chunk h d)).outputBuffer = R.publisher.outputBuffer ++ parts.flatten) :
    RelaySteps c si ch R D (.publish (.chunk h d) parts) := by
  obtain ⟨s', time, he, ho, hcodec⟩ := feedData_accepts (s := R.server.app) (fun e e' => (hset e e').2) h.hf.ml.toNat
    (h.chooseType (R.publisher.channels h.ci)).2.lastOutAbsTs
  have hinet : (h.hf.si.toNat == si) = true := beq_iff_eq.mpr hsi
  have hD : (handedOn R.publisher (.chunk h d)).foldlM (deliver (frameApp si)) D = some (Function.update D b ((D b).add d
      h.hf.ml.toNat (h.chooseType (R.publisher.channels h.ci)).2.lastOutAbsTs)) := by
    rw [handedOn, foldlM_data hsi, hb]
    rfl
  have hs : (handedOn R.publisher (.chunk h d)).foldlM (deliver (publishApp c si)) R.server.app = some s' := by
    simp only [handedOn, List.foldlM_cons, deliver, publishApp, hinet, if_true, hb, he]
    rfl
  refine publish_step hR ha hp hs hD fun q hag hq => ?_
  have hother : ∀ b', b' ≠ b → (sendChunk R.publisher h d).channels (ch b') = R.publisher.channels (ch b') :=
    fun b' hb' => sendChunk_channels_of_ne ha.1.isChannel d (hci ▸ ch_ne hch hb')
  have hk : (sendChunk R.publisher h d).outboundChunkSize = R.publisher.outboundChunkSize :=
    sendChunk_outboundChunkSize ha.1.isChannel d
  have hchan := sendChunk_channels (p := R.publisher) ha.1.isChannel d
  have hpiece : ∀ f : Feed, f.data = d → f.processedLength = (R.publisher.channels h.ci).lastOutProcBytes →
      f.totalLength = h.hf.ml.toNat → Piece (progressOf R.publisher h.ci) f ∧
        progressOf (sendChunk R.publisher h d) h.ci = after f ∧
        d.length = min R.publisher.outboundChunkSize (f.totalLength - f.processedLength) :=
    fun f h₁ h₂ h₃ => piece_of_chunk hR.agree ha h₁ h₂ h₃
  have hlen := hR.counted b
  rw [← hci] at hlen
  generalize (h.chooseType (R.publisher.channels h.ci)).2.lastOutAbsTs = t
  generalize (R.publisher.channels h.ci).lastOutProcBytes = n at hlen hpiece hset hchan ho hcodec
  obtain ⟨hp₀, -, hd⟩ := hpiece ⟨d, n, h.hf.ml.toNat, t, b, 0, 0⟩ rfl rfl rfl
  have hle := hp₀.le
  have h24 := hp₀.total_lt
  simp only at hle h24 hd
  refine ⟨hag, fun b' => ?_, ?_, ?_⟩
  · show (Function.update D b ((D b).add d h.hf.ml.toNat t) b').part.length =
      ((sendChunk R.publisher h d).channels (ch b')).lastOutProcBytes
    by_cases hb' : b' = b
    · subst hb'
      rw [Function.update_self, ((D b').add_eq d h.hf.ml.toNat t).1, List.length_append, hlen, ← hci, hchan]
      show _ = (n + d.length) % h.hf.ml.toNat
      split
      · rename_i e
        rw [e, Nat.mod_self, List.length_nil]
      · rw [Nat.mod_eq_of_lt (by omega), List.length_append, hlen]
    · rw [Function.update_of_ne hb', hother b' hb']
      exact hR.counted b'
  · show Kept (sendChunk R.publisher h d).outboundChunkSize _ q.app
    rw [hk, hq]
    exact hR.kept.add (fun e => List.eq_nil_of_length_eq_zero (hlen.trans e)) (fun e e' => (hset e e').1) (by omega) h24
      hcodec t
  · show List.Forall₂ _ R.joined q.app.outStreams
    rw [hq, ho]
    refine forall₂_map_right hR.players fun x₀ x hx => ?_
    obtain ⟨hfeeder, hplay⟩ := hx
    refine ⟨hfeeder.trans hk.symm, ?_⟩
    have hfits : Fits x.stream (progressOf R.publisher (ch b)) (x.read c d n h.hf.ml.toNat time b).2 := by
      obtain ⟨h₁, -, h₃⟩ := hpiece (x.read c d n h.hf.ml.toNat time b).2 rfl rfl rfl
      refine ⟨hci ▸ h₁, fun e e' => (hset e e').1, fun e => ?_⟩
      rw [← e, hplay.feeder, hfeeder]
      exact h₃
    have hfed := hplay.feed c hfits t
    rw [if_neg (by rw [hplay.live]; decide)]
    have hg : Function.update (fun b => progressOf R.publisher (ch b)) b
        (after (x.read c d n h.hf.ml.toNat time b).2) = fun b => progressOf (sendChunk R.publisher h d) (ch b) := by
      funext b'
      by_cases hb' : b' = b
      · subst hb'
        rw [Function.update_self, ← hci, (hpiece (x.read c d n h.hf.ml.toNat time b').2 rfl rfl rfl).2.1]
      · rw [Function.update_of_ne hb', progressOf, progressOf, hother b' hb']
    rw [hg] at hfed
    exact hfed

theorem publish_steps {R : Relay τ ν} {D : Bool → Assembly} {x : Send} {parts : List (List Byte)}
    (hR : RelayInv ch R D) (hch : ch true ≠ ch false) (hm : MayRelay c si ch R (.publish x parts)) :
    RelaySteps c si ch R D (.publish x parts) := by
  obtain ⟨ha, hx, hp⟩ := hm
  match x, ha, hx, hp with
  | .message m, ha, hx, hp => exact other_step hR ha hx nofun hp
  | .abort i, ha, hx, hp => exact other_step hR ha hx nofun hp
  | .chunk h d, ha, hx, hp =>
    rw [MayPublish] at hx
    split at hx
    · rename_i hsi
      exact frame_step hR hch ha hsi rfl hx.1 hx.2 hp
    · rename_i hsi
      exact other_step hR ha ⟨hx, hsi⟩ nofun hp

/-- What happens to the players besides. -/
theorem players_step {R : Relay τ ν} {D : Bool → Assembly} {op : RelayOp τ ν} {joined : List (Nat × Player τ ν)}
    {outStreams : List (Player τ ν)} {q : Connection (InStream τ ν)} (hR : RelayInv ch R D)
    (he : R.step c si op = some ⟨R.publisher, q, joined⟩) (hn : published op = [])
    (hq : q = withOutStreams R.server outStreams)
    (hf : List.Forall₂ (fun x₀ x => x₀.2.stream.feederChunkSize = R.publisher.outboundChunkSize ∧
      Playing x₀.1 x₀.2 x D fun b => progressOf R.publisher (ch b)) joined outStreams) :
    RelaySteps c si ch R D op := by
  subst hq
  refine ⟨_, D, he, ⟨⟨hR.agree.1, hR.agree.2, hR.agree.3, hR.agree.4, hR.agree.5⟩, hR.counted, hR.kept, hf⟩, ?_⟩
  rw [hn]
  exact ⟨trivial, rfl, rfl⟩

theorem join_steps {R : Relay τ ν} {D : Bool → Assembly} {sp : Nat} {x : Player τ ν} (hR : RelayInv ch R D)
    (hm : MayRelay c si ch R (.join sp x)) : RelaySteps c si ch R D (.join sp x) := by
  obtain ⟨hn, hk⟩ := hm
  obtain ⟨D₂, hp, hw, hs⟩ := hn.attached (D := D) (s := R.server.app) (hk ▸ hR.kept) c fun _ => R.server.app.lastTime true
  refine players_step hR rfl rfl rfl (.cons ⟨hk, hp.rebase hw hs (fun b => (hR.progress b).1) ?_⟩ hR.players)
  exact fun b => (hR.progress b).2

theorem forall₂_modify {α β : Type} {r : α → β → Prop} {f : β → β} {l : List α} {l' : List β}
    (h : List.Forall₂ r l l') : ∀ (i : Nat), (∀ a b, l[i]? = some a → l'[i]? = some b → r a b → r a (f b)) →
      List.Forall₂ r l (l'.modify i f) := by
  induction h with
  | nil =>
    intro i hf
    rw [List.modify_nil]
    exact .nil
  | cons hab h ih =>
    intro i hf
    match i with
    | 0 => exact .cons (hf _ _ rfl rfl hab) h
    | i + 1 => exact .cons hab (ih i fun a b ha hb => hf a b ha hb)

theorem relay_steps {R : Relay τ ν} {D : Bool → Assembly} {op : RelayOp τ ν} (hR : RelayInv ch R D)
    (hch : ch true ≠ ch false) (hm : MayRelay c si ch R op) : RelaySteps c si ch R D op := by
  match op, hm with
  | .publish x parts, hm => exact publish_steps hR hch hm
  | .join sp x, hm => exact join_steps hR hm
  | .drain i n, hm =>
    exact players_step hR rfl rfl rfl (forall₂_modify hR.players i fun x₀ x _ _ hx =>
      ⟨hx.1, hx.2.live, hx.2.feeder, hx.2.sent⟩)
  | .send i y, hm =>
    refine players_step hR rfl rfl rfl (forall₂_modify hR.players i fun x₀ x h₀ h hx => ⟨hx.1, ?_⟩)
    have hmay : May x₀.1 False (playOf x D fun b => progressOf R.publisher (ch b)) (.send y) := hm x₀ x h₀ h
    obtain ⟨P, he, hp⟩ := hx.2.steps (sentToo y x) D hmay fun P he => by
      cases he
      exact ⟨rfl, rfl, fun _ => ⟨rfl, rfl⟩, hx.2.live⟩
    cases he
    exact hp

/-! ## A run -/

/-- All that the publisher has sent. -/
def allPublished (ops : List (RelayOp τ ν)) : List Send := ops.flatMap published

theorem relay_run {ops : List (RelayOp τ ν)} (hch : ch true ≠ ch false) :
    ∀ {R : Relay τ ν} {D : Bool → Assembly}, RelayInv ch R D → OrderlyRelay c si ch R ops →
      ∃ R' D', R.run c si ops = some R' ∧ RelayInv ch R' D' ∧
        (allHandedOn R.publisher (allPublished ops)).foldlM (deliver (frameApp si)) D = some D' := by
  induction ops with
  | nil =>
    intro R D hR ho
    exact ⟨R, D, rfl, hR, rfl⟩
  | cons op ops ih =>
    intro R D hR ho
    obtain ⟨R₁, D₁, he₁, h₁, ha₁, hs₁, hf₁⟩ := relay_steps hR hch ho.1
    obtain ⟨R₂, D₂, he₂, h₂, hf₂⟩ := ih h₁ (ho.2 R₁ he₁)
    refine ⟨R₂, D₂, ?_, h₂, ?_⟩
    · rw [Relay.run, List.foldlM_cons, he₁]
      exact he₂
    · rw [allPublished, List.flatMap_cons, allHandedOn_append, List.foldlM_append, hf₁, hs₁]
      exact hf₂

/-- What the player that has joined as `x₀` on its stream gets, of the frames of `D`. -/
def Gets (D : Bool → Assembly) (x₀ : Nat × Player τ ν) (x : Player τ ν) : Prop :=
  x.enqueuedForDelete = false ∧ ∀ q : Connection (Bool → Assembly), Agree x₀.2.connection q →
    q.app = (fun _ => .empty) → ∃ bytes, x.connection.outputBuffer = x₀.2.connection.outputBuffer ++ bytes ∧
      ∀ parts, parts.flatten = bytes →
        ∃ q', runParts (processBytes (frameApp x₀.1)) q [] parts = .ok (q', []) ∧ ∀ b,
          ((q'.app b).frames.map (·.2)).Sublist ((D b).frames.map (·.2)) ∧ (q'.app b).part <+: (D b).part

theorem Playing.gets {x₀ : Nat × Player τ ν} {x : Player τ ν} {D : Bool → Assembly} {g : Bool → Progress}
    (h : Playing x₀.1 x₀.2 x D g) : Gets D x₀ x := by
  obtain ⟨run, A, ha, hs, hf, hinv⟩ := h.sent
  refine ⟨h.live, fun q hag hq => ?_⟩
  obtain ⟨bytes, q', hb, hc, hag', hq'⟩ := sendAll_consumes ha hag (hq.symm ▸ hf)
  refine ⟨bytes, hs ▸ hb, fun parts hp => ⟨q', hc.runParts hag.selected hag'.selected hp, fun b => ?_⟩⟩
  rw [hq']
  exact ⟨whole_false_iff.mp (hinv.kind b).whole, (hinv.kind b).stage.begins⟩

/-- A server that nobody has published to yet. -/
def newRelay : Relay τ ν := ⟨initial (), initial ⟨fun _ => 0, fun _ => [], []⟩, []⟩

theorem newRelay_inv : RelayInv ch (newRelay : Relay τ ν) fun _ => .empty :=
  ⟨agree_initial _ _, fun _ => rfl, fun _ h => absurd rfl h, .nil⟩

/-- Whatever the publisher and the players do in whatever order, nobody is
enqueued for delete, and each player gets a part of the frames that the
publisher has sent, each of them whole and in its order, and of the one under
way a beginning. -/
theorem relayed {ops : List (RelayOp τ ν)} (hch : ch true ≠ ch false) (ho : OrderlyRelay c si ch newRelay ops) :
    ∃ R D, newRelay.run c si ops = some R ∧
      (allHandedOn (initial ()) (allPublished ops)).foldlM (deliver (frameApp si)) (fun _ => .empty) = some D ∧
      List.Forall₂ (Gets D) R.joined R.server.app.outStreams := by
  obtain ⟨R, D, he, hR, hf⟩ := relay_run hch newRelay_inv ho
  exact ⟨R, D, he, hf, hR.players.imp fun x₀ x hx => hx.2.gets⟩

/-- Parsers that take everything, and make nothing of it. -/
def anyCodecs : Codecs Unit := ⟨fun nal _ => (nal, 0), fun _ => true, fun _ => true⟩

def newPlayer : Player Unit Unit := ⟨{ idleStream true with feederChunkSize := 128 }, initial (), (), 0, false⟩

theorem newPlayer_new : New 1 newPlayer where
  ready := by
    have h := idleStream_ready true
    exact ⟨rfl, h.drops, rfl, h.lt, h.apart, h.onTrack, h.bucket, h.idle⟩
  chunkSize_ge := by decide
  waits b := by cases b <;> rfl
  live := rfl

/-- A video frame with these bytes, all of it in one chunk. -/
def videoChunk (data : List Byte) : Send :=
  .chunk { Header.zero with ci := 5, hf := ⟨40, .ofNat 24 data.length, mtVideoData, 1⟩, isAbsolute := true } data

/-- What is sent behind what has been sent before. -/
def newBytes (u : Connection Unit) (x : Send) : List Byte := (send u x).outputBuffer.drop u.outputBuffer.length

/-- A frame, a player, and another frame. -/
def threeOps : List (RelayOp Unit Unit) :=
  [.publish (videoChunk [0x17, 1, 0]) [newBytes (initial ()) (videoChunk [0x17, 1, 0])], .join 1 newPlayer,
    .publish (videoChunk [0x17, 1, 7])
      [newBytes (send (initial ()) (videoChunk [0x17, 1, 0])) (videoChunk [0x17, 1, 7])]]

def audioVideo (b : Bool) : Nat := if b then 4 else 5

theorem step_publisher {R R' : Relay τ ν} {x : Send} {parts : List (List Byte)}
    (h : R.step c si (.publish x parts) = some R') : R'.publisher = send R.publisher x := by
  rw [Relay.step] at h
  split at h
  · cases h
    rfl
  · cases h

theorem threeOps_orderly : OrderlyRelay anyCodecs 1 audioVideo newRelay threeOps := by
  refine ⟨⟨⟨⟨⟨by decide, by decide⟩, by decide, nofun⟩, by decide, by decide, rfl⟩, ?_, rfl⟩, fun R hR => ?_⟩
  · exact ⟨rfl, fun _ => nofun⟩
  have hu := step_publisher hR
  refine ⟨⟨newPlayer_new, by rw [hu]; rfl⟩, fun R' hR' => ?_⟩
  cases hR'
  refine ⟨⟨?_, ?_, ?_⟩, fun R hR => trivial⟩
  · show Allowed R.publisher _
    rw [hu]
    exact ⟨⟨⟨by decide, by decide⟩, by decide, nofun⟩, by decide, by decide, rfl⟩
  · exact ⟨rfl, fun _ => nofun⟩
  · show (send R.publisher _).outputBuffer = R.publisher.outputBuffer ++ _
    rw [hu]
    rfl

theorem relayed_threeOps :
    ∃ R D, newRelay.run anyCodecs 1 threeOps = some R ∧
      (allHandedOn (initial ()) (allPublished threeOps)).foldlM (deliver (frameApp 1)) (fun _ => .empty) = some D ∧
      List.Forall₂ (Gets D) R.joined R.server.app.outStreams :=
  relayed (by decide : 4 ≠ 5) threeOps_orderly

end XH.Proof.Live
