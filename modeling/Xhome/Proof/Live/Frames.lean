import Xhome.Proof.Live.Player

/-!
# A player gets whole frames

The pieces of a publisher's audio and video frames are fed to a player's stream
in any order, while other things are sent on the player's connection
(`Orderly`). What the player puts together are frames of the publisher, each of
them whole and in its order (`frames_whole`). Once the first ones have been sent
each frame has its time, and none is missing unless frames may be dropped
(`frames_timed`).
-/

namespace XH.Proof.Live

open Impl.Live Impl.Live.Connection Impl.Live.OutStream

variable {τ : Type} {si : Nat} {steady : Prop}

/-! ## What happens at a player's connection -/

inductive PlayerOp where
  | feed (f : Feed)
  | send (x : Send)

/-- A stream of a player with its connection, and of each kind what has been
fed, how far the frame under way has come, and its latest time. -/
structure Play (τ : Type) where
  stream : OutStream
  connection : Connection τ
  fed : Bool → Assembly
  progress : Bool → Progress
  latest : Bool → Int

/-- The frame is fed, or would be if the stream let it through. -/
def Play.noted (P : Play τ) (f : Feed) (s : OutStream) (p : Connection τ) : Play τ where
  stream := s
  connection := p
  fed := Function.update P.fed f.isAudio ((P.fed f.isAudio).add f.data f.totalLength (timeOf P.stream f))
  progress := Function.update P.progress f.isAudio (after f)
  latest := Function.update P.latest f.isAudio (timeOf P.stream f)

/-- What else is sent reaches the stream if it is a chunk size. -/
def signaled (s : OutStream) (p : Connection τ) : Send → OutStream
  | .chunkSize size => s.trySetChunkSize p size
  | _ => s

def Play.step (P : Play τ) : PlayerOp → Option (Play τ)
  | .feed f => (P.stream.feedData P.connection f).map fun (s, p) => P.noted f s p
  | .send x => some { P with stream := signaled P.stream P.connection x, connection := send P.connection x }

def Play.run (P : Play τ) (ops : List PlayerOp) : Option (Play τ) := ops.foldlM Play.step P

/-- What is sent besides the frames of stream `si` stays off its channels `ch`. -/
def Elsewhere (si : Nat) (ch : Bool → Nat) : Send → Prop
  | .message m => ∀ b, ch b ≠ m.ci
  | .chunk h _ => (∀ b, ch b ≠ h.ci) ∧ h.hf.si.toNat ≠ si
  | .chunkSize _ => ∀ b, ch b ≠ 2
  | .abort i => ∀ b, ch b ≠ 2 ∧ ch b ≠ i

/-- The frames come piece by piece, and where times count (`steady`) they do not run back. -/
def May (si : Nat) (steady : Prop) (P : Play τ) : PlayerOp → Prop
  | .feed f => Fits P.stream (P.progress f.isAudio) f ∧
    (steady → P.latest f.isAudio ≤ timeOf P.stream f ∧ timeOf P.stream f < 2 ^ 32)
  | .send x => Allowed P.connection x ∧ Elsewhere si (fun b => (P.stream.track b).channel) x

def Orderly (si : Nat) (steady : Prop) : Play τ → List PlayerOp → Prop
  | _, [] => True
  | P, op :: ops => May si steady P op ∧ ∀ P', P.step op = some P' → Orderly si steady P' ops

/-! ## The invariant -/

/-- `A` is what the player has put together. -/
structure PlayInv (si : Nat) (steady : Prop) (P : Play τ) (A : Bool → Assembly) : Prop where
  running : P.stream.paused = false
  drops : DropsAllowed P.stream
  chunkSize : P.stream.chunkSize = P.connection.outboundChunkSize
  ge : 128 ≤ P.connection.outboundChunkSize
  lt : P.connection.outboundChunkSize < 0xffffffff
  apart : (P.stream.track true).channel ≠ (P.stream.track false).channel
  kind : ∀ b, KindInv si steady (P.latest b) P.stream P.connection b (P.progress b) (A b) (P.fed b)

theorem channel_ne {s : OutStream} (h : (s.track true).channel ≠ (s.track false).channel) {b b' : Bool}
    (hb : b' ≠ b) : (s.track b').channel ≠ (s.track b).channel := by
  intro e
  cases b <;> cases b'
  · exact hb rfl
  · exact h e
  · exact h e.symm
  · exact hb rfl

/-- A kind that a step does not reach. -/
theorem KindInv.elsewhere {latest : Int} {s s' : OutStream} {p p' : Connection τ} {b : Bool} {g : Progress}
    {x y : Assembly} (h : KindInv si steady latest s p b g x y) (ht : s'.track b = s.track b)
    (hk : s.chunkSize ≤ s'.chunkSize) (hc : s'.canDropFrames = s.canDropFrames)
    (hp : p'.channels (s.track b).channel = p.channels (s.track b).channel) :
    KindInv si steady latest s' p' b g x y := by
  have hstage : Stage s' p' b x.part y.part g := by
    cases h.stage with
    | between hb hi hs hf =>
      refine .between (ht ▸ hb) ?_ hs hf
      rw [Idle, ht, hp]
      exact hi
    | sends n total hsk hml hcn hfed hb hn h0 hlt =>
      refine .sends n total ?_ (ht ▸ hml) ?_ (ht ▸ hfed) (Nat.lt_of_lt_of_le (ht ▸ hb) hk) hn h0 hlt
      · rw [Skips, ht]
        exact hsk
      · rw [ht]
        exact ⟨hcn.le, by rw [hp]; exact hcn.procBytes, by rw [hp]; exact hcn.same⟩
    | skips n total hsk hb hi hs hn h0 hlt =>
      refine .skips n total ?_ (ht ▸ hb) ?_ hs hn h0 hlt
      · rw [Skips, ht]
        exact hsk
      · rw [Idle, ht, hp]
        exact hi
  refine ⟨ht ▸ h.onTrack, hstage, h.whole, fun hst e => h.all hst (hc ▸ e), fun hst => ?_⟩
  have htm := h.timed hst
  refine ⟨ht ▸ htm.behind, ?_, ?_, ?_, ?_, htm.goes, htm.time_le⟩
  · rw [ht, hp]
    exact htm.stream
  · rw [ht, hp]
    exact htm.nonneg
  · rw [ht, hp]
    exact htm.le
  · rw [Skips, ht, hp]
    exact htm.begun

/-- What a step has sent, and that the player gets it. -/
structure Steps (si : Nat) (steady : Prop) (P P' : Play τ) (A : Bool → Assembly) (run : List Send) : Prop where
  allowed : AllAllowed P.connection run
  sends : sendAll P.connection run = P'.connection
  canDropFrames : P'.stream.canDropFrames = P.stream.canDropFrames
  feederChunkSize : P'.stream.feederChunkSize = P.stream.feederChunkSize
  timeOf : steady → ∀ f, timeOf P'.stream f = timeOf P.stream f
  handed : ∃ A', (allHandedOn P.connection run).foldlM (deliver (frameApp si)) A = some A' ∧ PlayInv si steady P' A'

/-- A piece. -/
theorem feed_steps {P : Play τ} {A : Bool → Assembly} {f : Feed} (h : PlayInv si steady P A)
    (hm : May si steady P (.feed f)) : ∃ P' run, P.step (.feed f) = some P' ∧ Steps si steady P P' A run := by
  obtain ⟨s', xs, x', he, hfold, hf, hkind⟩ :=
    feed_kind h.running h.drops h.chunkSize (Nat.lt_of_lt_of_le (by decide) h.ge)
      (Nat.lt_trans h.lt (by decide)) (h.kind f.isAudio) hm.1 hm.2 rfl
  refine ⟨P.noted f s' (sendAll P.connection (chunksOf xs)), chunksOf xs, ?_, hf.allowed, rfl,
    hf.stream.canDropFrames, hf.stream.feederChunkSize, fun hst f' => ?_, _, hfold, ?_⟩
  · rw [Play.step, he]
    rfl
  · obtain ⟨h₁, h₂⟩ := hf.deltas ((h.kind f.isAudio).timed hst).behind
    show timeOf s' f' = _
    simp only [timeOf, deltaTime, h₁, h₂, hf.stream.sameTimeBase, hf.stream.seekTime]
  have hsame : ∀ b, (s'.track b).channel = (P.stream.track b).channel := by
    intro b
    by_cases hb : b = f.isAudio
    · rw [hb]
      exact hf.channel
    · rw [Bool.eq_not.mpr hb, hf.other]
  refine ⟨hf.stream.paused.trans h.running, hf.drops, ?_, ?_, ?_, ?_, fun b => ?_⟩
  · exact hf.stream.chunkSize.trans (h.chunkSize.trans hf.chunkSize.symm)
  · show 128 ≤ (sendAll P.connection (chunksOf xs)).outboundChunkSize
    rw [hf.chunkSize]
    exact h.ge
  · show (sendAll P.connection (chunksOf xs)).outboundChunkSize < 0xffffffff
    rw [hf.chunkSize]
    exact h.lt
  · show (s'.track true).channel ≠ (s'.track false).channel
    rw [hsame, hsame]
    exact h.apart
  · by_cases hb : b = f.isAudio
    · subst hb
      simp only [Play.noted, Function.update_self]
      exact hkind
    · simp only [Play.noted, Function.update_of_ne hb]
      have ht : s'.track b = P.stream.track b := by
        rw [Bool.eq_not.mpr hb]
        exact hf.other
      exact (h.kind b).elsewhere ht (Nat.le_of_eq hf.stream.chunkSize.symm) hf.stream.canDropFrames
        (hf.others _ (channel_ne h.apart hb))

/-- A message changes the channel it is sent on. -/
theorem sendMessage_keeps (p : Connection τ) (m : Message) :
    (p.sendMessage m).2.outboundChunkSize = p.outboundChunkSize ∧
      ∀ j ≠ m.ci, (p.sendMessage m).2.channels j = p.channels j := by
  simp only [sendMessage]
  exact ⟨rfl, fun j hj => Function.update_of_ne hj ..⟩

/-- What is sent elsewhere leaves the stream's channels as they are. -/
theorem send_keeps {ch : Bool → Nat} {p : Connection τ} {x : Send} (ha : Allowed p x) (he : Elsewhere si ch x)
    (b : Bool) : (send p x).channels (ch b) = p.channels (ch b) := by
  match x, ha, he with
  | .message m, ha, he => exact (sendMessage_keeps p m).2 _ (he b)
  | .chunk h data, ha, he => exact sendChunk_channels_of_ne ha.1.isChannel data (he.1 b)
  | .chunkSize size, ha, he =>
    rw [send, trySetOutboundChunkSize]
    split
    · rfl
    · exact (sendMessage_keeps { p with outboundChunkSize := size } (genericMessage mtChunkSize size)).2 _ (he b)
  | .abort i, ha, he =>
    obtain ⟨h₂, hi⟩ := he b
    rw [send, abortChannel]
    split
    · have h := (sendMessage_keeps p (genericMessage mtAbortMessage (p.channels i).id)).2 _ h₂
      generalize p.sendMessage (genericMessage mtAbortMessage (p.channels i).id) = r at h
      obtain ⟨ok, p'⟩ := r
      cases ok with
      | false => exact h
      | true => exact (Function.update_of_ne hi ..).trans h
    · rfl

/-- Only a chunk size changes the chunk size. -/
theorem send_outboundChunkSize {p : Connection τ} {x : Send} (ha : Allowed p x) (hx : ∀ size, x ≠ .chunkSize size) :
    (send p x).outboundChunkSize = p.outboundChunkSize := by
  match x, ha, hx with
  | .message m, ha, hx => exact (sendMessage_keeps p m).1
  | .chunk h data, ha, hx => exact sendChunk_outboundChunkSize ha.1.isChannel data
  | .chunkSize size, ha, hx => exact absurd rfl (hx size)
  | .abort i, ha, hx =>
    rw [send, abortChannel]
    split
    · have h := (sendMessage_keeps p (genericMessage mtAbortMessage (p.channels i).id)).1
      generalize p.sendMessage (genericMessage mtAbortMessage (p.channels i).id) = r at h
      obtain ⟨ok, p'⟩ := r
      cases ok <;> exact h
    · rfl

/-- The chunk size of the connection, behind what is sent, is the one of the stream. -/
theorem signaled_chunkSize {s : OutStream} {p : Connection τ} {x : Send} (hs : s.chunkSize = p.outboundChunkSize)
    (ha : Allowed p x) :
    (signaled s p x).chunkSize = (send p x).outboundChunkSize ∧
      p.outboundChunkSize ≤ (send p x).outboundChunkSize ∧
      ((send p x).outboundChunkSize = p.outboundChunkSize ∨ (send p x).outboundChunkSize ≤ 4 * 1024 * 1024) := by
  by_cases hx : ∃ size, x = .chunkSize size
  · obtain ⟨size, rfl⟩ := hx
    rw [send, trySetOutboundChunkSize, signaled, trySetChunkSize]
    by_cases hle : size ≤ p.outboundChunkSize
    · rw [if_pos hle, if_pos hle]
      exact ⟨hs, Nat.le_refl _, .inl rfl⟩
    · have h := (sendMessage_keeps { p with outboundChunkSize := size } (genericMessage mtChunkSize size)).1
      rw [if_neg hle, if_neg hle, h]
      exact ⟨rfl, Nat.le_of_not_le hle, .inr ha.2⟩
  · have h := send_outboundChunkSize ha fun size e => hx ⟨size, e⟩
    refine ⟨?_, Nat.le_of_eq h.symm, .inl h⟩
    rw [h, ← hs]
    cases x with
    | chunkSize size => exact absurd ⟨size, rfl⟩ hx
    | message m => rfl
    | chunk h data => rfl
    | abort i => rfl

/-- The application of a stream is handed nothing of it. -/
theorem handedOn_elsewhere {σ : Type} {a : App σ} (hi : ∀ s i, a.inNet s i = (i == si))
    (hm : ∀ s h body, a.inboundMessage s h body = some (s, [])) {ch : Bool → Nat} {p : Connection τ} {x : Send}
    (he : Elsewhere si ch x) (s : σ) : (handedOn p x).foldlM (deliver a) s = some s := by
  match x, he with
  | .message m, he =>
    rw [handedOn]
    split
    · rfl
    · simp only [List.foldlM_cons, deliver, hm]
      rfl
  | .chunk h data, he =>
    have hne : (h.hf.si.toNat == si) = false := beq_eq_false_iff_ne.mpr he.2
    simp only [handedOn, List.foldlM_cons, deliver, hi, hne, Bool.false_eq_true, if_false]
    rfl
  | .chunkSize size, he => rfl
  | .abort i, he => rfl

/-- Something else that is sent. -/
theorem send_steps {P : Play τ} {A : Bool → Assembly} {x : Send} (h : PlayInv si steady P A)
    (hm : May si steady P (.send x)) : ∃ P' run, P.step (.send x) = some P' ∧ Steps si steady P P' A run := by
  obtain ⟨ha, he⟩ := hm
  obtain ⟨h₁, h₂, h₃⟩ := signaled_chunkSize h.chunkSize ha
  have hck := h.chunkSize
  have hge := h.ge
  have hlt := h.lt
  obtain ⟨hz, hd, hfc, hto, hc, ht⟩ : (signaled P.stream P.connection x).paused = P.stream.paused ∧
      (signaled P.stream P.connection x).canDropFrames = P.stream.canDropFrames ∧
      (signaled P.stream P.connection x).feederChunkSize = P.stream.feederChunkSize ∧
      (∀ f, timeOf (signaled P.stream P.connection x) f = timeOf P.stream f) ∧
      P.stream.chunkSize ≤ (signaled P.stream P.connection x).chunkSize ∧
      ∀ b, (signaled P.stream P.connection x).track b = P.stream.track b := by
    rw [h₁, hck]
    refine ⟨?_, ?_, ?_, fun f => ?_, h₂, fun b => ?_⟩
    · cases x <;> simp only [signaled, trySetChunkSize]
      split <;> rfl
    · cases x <;> simp only [signaled, trySetChunkSize]
      split <;> rfl
    · cases x <;> simp only [signaled, trySetChunkSize]
      split <;> rfl
    · cases x <;> simp only [signaled, trySetChunkSize]
      split <;> rfl
    · cases x <;> simp only [signaled, trySetChunkSize]
      split
      · rfl
      · cases b <;> rfl
  refine ⟨_, [x], rfl, ⟨ha, trivial⟩, rfl, hd, hfc, fun _ => hto, A, ?_, ?_⟩
  · rw [allHandedOn, allHandedOn, List.append_nil]
    exact handedOn_elsewhere (fun _ _ => rfl) (fun _ _ _ => rfl) he A
  · refine ⟨hz.trans h.running, fun b e => ?_, h₁, Nat.le_trans h.ge h₂, ?_, ?_, fun b => ?_⟩
    · rw [ht] at e
      exact hd ▸ h.drops b e
    · show (send P.connection x).outboundChunkSize < 0xffffffff
      omega
    · show ((signaled P.stream P.connection x).track true).channel ≠ _
      rw [ht, ht]
      exact h.apart
    · exact (h.kind b).elsewhere (ht b) hc hd (send_keeps ha he b)

theorem allHandedOn_append {p : Connection τ} {xs ys : List Send} :
    allHandedOn p (xs ++ ys) = allHandedOn p xs ++ allHandedOn (sendAll p xs) ys := by
  induction xs generalizing p with
  | nil => rfl
  | cons x xs ih =>
    rw [List.cons_append, allHandedOn, ih, allHandedOn, List.append_assoc]
    rfl

theorem step_steps {P : Play τ} {A : Bool → Assembly} {op : PlayerOp} (h : PlayInv si steady P A)
    (hm : May si steady P op) : ∃ P' run, P.step op = some P' ∧ Steps si steady P P' A run := by
  match op, hm with
  | .feed f, hm => exact feed_steps h hm
  | .send x, hm => exact send_steps h hm

/-- A run. -/
theorem run_steps {ops : List PlayerOp} :
    ∀ {P : Play τ} {A : Bool → Assembly}, PlayInv si steady P A → Orderly si steady P ops →
      ∃ P' run, P.run ops = some P' ∧ Steps si steady P P' A run := by
  induction ops with
  | nil =>
    intro P A h ho
    exact ⟨P, [], rfl, trivial, rfl, rfl, rfl, fun _ _ => rfl, A, rfl, h⟩
  | cons op ops ih =>
    intro P A h ho
    obtain ⟨P₁, run₁, he₁, ha₁, hs₁, hc₁, hk₁, ht₁, A₁, hf₁, h₁⟩ := step_steps h ho.1
    obtain ⟨P₂, run₂, he₂, ha₂, hs₂, hc₂, hk₂, ht₂, A₂, hf₂, h₂⟩ := ih h₁ (ho.2 P₁ he₁)
    refine ⟨P₂, run₁ ++ run₂, ?_, ?_, ?_, hc₂.trans hc₁, hk₂.trans hk₁, fun hst f => (ht₂ hst f).trans (ht₁ hst f), A₂, ?_, h₂⟩
    · rw [Play.run, List.foldlM_cons, he₁]
      exact he₂
    · rw [allAllowed_append, hs₁]
      exact ⟨ha₁, ha₂⟩
    · rw [sendAll_append, hs₁, hs₂]
    · rw [allHandedOn_append, List.foldlM_append, hf₁, hs₁]
      exact hf₂

/-! ## What the player gets -/

/-- The stream is between frames and its connection can carry them. -/
structure Ready (si : Nat) (s : OutStream) (p : Connection τ) : Prop where
  running : s.paused = false
  drops : DropsAllowed s
  chunkSize : s.chunkSize = p.outboundChunkSize
  lt : p.outboundChunkSize < 0xffffffff
  apart : (s.track true).channel ≠ (s.track false).channel
  onTrack : ∀ b, OnTrack si b (s.track b)
  bucket : ∀ b, (s.track b).bucket = []
  idle : ∀ b, Idle p (s.track b).channel

/-- The first frame of each kind has been sent, at `latest` or before. -/
structure Behind (s : OutStream) (p : Connection τ) (latest : Bool → Int) : Prop where
  behind : ∀ b, (s.track b).isFirst = false
  stream : ∀ b, (p.channels (s.track b).channel).lastOutStreamId = (s.track b).header.hf.si
  nonneg : ∀ b, 0 ≤ (p.channels (s.track b).channel).lastOutAbsTs
  le : ∀ b, (p.channels (s.track b).channel).lastOutAbsTs ≤ latest b

/-- Nothing has been put together yet. -/
def Assembly.empty : Assembly := ⟨[], 0, []⟩

def Play.begin (s : OutStream) (p : Connection τ) (latest : Bool → Int) : Play τ where
  stream := s
  connection := p
  fed _ := .empty
  progress _ := none
  latest := latest

theorem Ready.playInv {s : OutStream} {p : Connection τ} {latest : Bool → Int} (h : Ready si s p)
    (hk : 128 ≤ p.outboundChunkSize) (hb : steady → Behind s p latest) :
    PlayInv si steady (.begin s p latest) fun _ => .empty := by
  refine ⟨h.running, h.drops, h.chunkSize, hk, h.lt, h.apart, fun b => ?_⟩
  refine ⟨h.onTrack b, .between (h.bucket b) (h.idle b) rfl rfl, ⟨[], .slnil, rfl, fun _ => rfl⟩, fun _ _ => rfl,
    fun hst => ?_⟩
  have hb := hb hst
  exact ⟨hb.behind b, hb.stream b, hb.nonneg b, hb.le b, fun e => absurd rfl e, fun e => absurd rfl e,
    fun e => absurd rfl e⟩

/-- However the bytes of an orderly run arrive, the player is behind them, with the invariant. -/
theorem played {s : OutStream} {p : Connection τ} {q : Connection (Bool → Assembly)}
    {latest : Bool → Int} (h : Ready si s p) (hb : steady → Behind s p latest) (hag : Agree p q)
    (hq : q.app = fun _ => .empty) {ops : List PlayerOp} (ho : Orderly si steady (.begin s p latest) ops) :
    ∃ P bytes, (Play.begin s p latest).run ops = some P ∧ P.connection.outputBuffer = p.outputBuffer ++ bytes ∧
      P.stream.canDropFrames = s.canDropFrames ∧ (steady → ∀ f, timeOf P.stream f = timeOf s f) ∧
      ∀ parts, parts.flatten = bytes → ∃ q', runParts (processBytes (frameApp si)) q [] parts = .ok (q', []) ∧
        Agree P.connection q' ∧ PlayInv si steady P q'.app := by
  obtain ⟨P, run, he, hal, hs, hc, -, ht, A, hf, hinv⟩ := run_steps (h.playInv hag.chunkSize_ge hb) ho
  obtain ⟨bytes, q', hbytes, hcons, hag', hq'⟩ := sendAll_consumes hal hag (hq.symm ▸ hf)
  refine ⟨P, bytes, he, ?_, hc, ht, fun parts hp => ⟨q', hcons.runParts hag.selected hag'.selected hp, ?_, hq' ▸ hinv⟩⟩
  · rw [← hs]
    exact hbytes
  · rw [← hs]
    exact hag'

/-- What the player has of the frame under way is a beginning of it. -/
theorem Stage.begins {s : OutStream} {p : Connection τ} {b : Bool} {sent fed : List Byte} {g : Progress}
    (h : Stage s p b sent fed g) : sent <+: fed := by
  cases h with
  | between hb hi hs hf => exact hs ▸ List.nil_prefix
  | sends n total hsk hml hc hfed hb hn h0 hlt => exact ⟨_, hfed⟩
  | skips n total hsk hb hi hs hn h0 hlt => exact hs ▸ List.nil_prefix

/-- Whatever is fed and sent in order, and however its bytes arrive, the player
gets frames that have been fed, each of them whole and in its order, and of the
one under way a beginning. -/
theorem frames_whole {s : OutStream} {p : Connection τ} {q : Connection (Bool → Assembly)} {latest : Bool → Int}
    (h : Ready si s p) (hag : Agree p q) (hq : q.app = fun _ => .empty) {ops : List PlayerOp}
    (ho : Orderly si False (.begin s p latest) ops) :
    ∃ P bytes, (Play.begin s p latest).run ops = some P ∧ P.connection.outputBuffer = p.outputBuffer ++ bytes ∧
      ∀ parts, parts.flatten = bytes → ∃ q', runParts (processBytes (frameApp si)) q [] parts = .ok (q', []) ∧
        Agree P.connection q' ∧ ∀ b,
          ((q'.app b).frames.map (·.2)).Sublist ((P.fed b).frames.map (·.2)) ∧ (q'.app b).part <+: (P.fed b).part := by
  obtain ⟨P, bytes, he, hb, -, -, hp⟩ := played h False.elim hag hq ho
  refine ⟨P, bytes, he, hb, fun parts hparts => ?_⟩
  obtain ⟨q', hq', hag', hinv⟩ := hp parts hparts
  refine ⟨q', hq', hag', fun b => ⟨?_, (hinv.kind b).stage.begins⟩⟩
  obtain ⟨zs, hs, hm, -⟩ := (hinv.kind b).whole
  rw [hm]
  exact hs.map _

/-- A track of stream 1. -/
def idleTrack (i : Nat) (mt : BitVec 8) (isFirst : Bool) : Track where
  channel := i
  isFirst := isFirst
  header := { Header.zero with ci := i, hf := ⟨0, 0, mt, 1⟩ }
  bucket := []
  currentFrameDropped := false

def idleStream (isFirst : Bool) : OutStream where
  chunkSize := 128
  feederChunkSize := 0xffffffff
  canDropFrames := false
  paused := false
  audio := idleTrack 4 mtAudioData isFirst
  video := idleTrack 5 mtVideoData isFirst
  lastIDropped := false
  lastPDropped := false
  lastFrameLevel := 0
  deltaAudioTime := 0
  deltaVideoTime := 0
  sameTimeBase := true
  seekTime := 0

theorem idleStream_ready (b : Bool) : Ready 1 (idleStream b) (initial ()) where
  running := rfl
  drops b' h := by cases b' <;> cases h
  chunkSize := rfl
  lt := by decide
  apart := (by decide : 4 ≠ 5)
  onTrack b' := by
    cases b'
    · exact ⟨(⟨by decide, by decide⟩ : IsChannel 5), rfl, rfl, rfl, by decide⟩
    · exact ⟨(⟨by decide, by decide⟩ : IsChannel 4), rfl, rfl, rfl, by decide⟩
  bucket b' := by cases b' <;> rfl
  idle b' := by cases b' <;> rfl

/-- A keyframe in two pieces, with an audio frame and a message between them. -/
def fourOps : List PlayerOp :=
  [.feed ⟨[0x17, 1, 0], 0, 5, 40, false, 0, 0⟩, .send (.message ⟨3, 0, 20, 1, true, [7, 8]⟩),
    .feed ⟨[0xaf, 1], 0, 2, 40, true, 0, 0⟩, .feed ⟨[5, 6], 3, 5, 40, false, 0, 0⟩]

theorem fourOps_orderly : Orderly 1 False (.begin (idleStream true) (initial ()) fun _ => 0) fourOps := by
  refine ⟨⟨⟨⟨by decide, by decide, nofun, fun _ => rfl, nofun⟩, nofun, nofun⟩, False.elim⟩, fun P h => ?_⟩
  cases h
  refine ⟨⟨⟨⟨by decide, by decide⟩, rfl, by decide, by decide, by decide⟩, fun b => ?_⟩, fun P h => ?_⟩
  · cases b
    · exact (by decide : 5 ≠ 3)
    · exact (by decide : 4 ≠ 3)
  cases h
  refine ⟨⟨⟨⟨by decide, by decide, nofun, fun _ => rfl, nofun⟩, nofun, nofun⟩, False.elim⟩, fun P h => ?_⟩
  cases h
  refine ⟨⟨⟨⟨by decide, by decide, nofun, nofun, ?_⟩, nofun, nofun⟩, False.elim⟩, fun P h => trivial⟩
  rintro n total h
  cases h
  exact ⟨rfl, rfl⟩

theorem frames_whole_fourOps :
    ∃ P bytes, (Play.begin (idleStream true) (initial ()) fun _ => 0).run fourOps = some P ∧
      P.connection.outputBuffer = bytes ∧
      ∀ parts, parts.flatten = bytes → ∃ q', runParts (processBytes (frameApp 1)) (initial fun _ => .empty) [] parts =
          .ok (q', []) ∧ Agree P.connection q' ∧ ∀ b,
        ((q'.app b).frames.map (·.2)).Sublist ((P.fed b).frames.map (·.2)) ∧ (q'.app b).part <+: (P.fed b).part :=
  frames_whole (idleStream_ready true) (agree_initial _ _) rfl fourOps_orderly

/-- Behind the first frames, and while times do not run back, the player gets
each frame with the time at which it has been fed, from one start of its kind
for all of them; where no frame may be dropped it gets every one. -/
theorem frames_timed {s : OutStream} {p : Connection τ} {q : Connection (Bool → Assembly)} {latest : Bool → Int}
    (h : Ready si s p) (hl : Behind s p latest) (hag : Agree p q) (hq : q.app = fun _ => .empty)
    {ops : List PlayerOp} (ho : Orderly si True (.begin s p latest) ops) :
    ∃ P bytes, (Play.begin s p latest).run ops = some P ∧ P.connection.outputBuffer = p.outputBuffer ++ bytes ∧
      (∀ f, timeOf P.stream f = timeOf s f) ∧
      ∀ parts, parts.flatten = bytes → ∃ q', runParts (processBytes (frameApp si)) q [] parts = .ok (q', []) ∧
        Agree P.connection q' ∧ ∀ b,
          (q'.app b).frames.Sublist (P.fed b).frames ∧ (s.canDropFrames = false → (q'.app b).frames = (P.fed b).frames) := by
  obtain ⟨P, bytes, he, hb, hc, ht, hp⟩ := played h (fun _ => hl) hag hq ho
  refine ⟨P, bytes, he, hb, ht trivial, fun parts hparts => ?_⟩
  obtain ⟨q', hq', hag', hinv⟩ := hp parts hparts
  refine ⟨q', hq', hag', fun b => ⟨?_, fun e => (hinv.kind b).all trivial (hc.trans e)⟩⟩
  obtain ⟨zs, hs, -, hz⟩ := (hinv.kind b).whole
  rw [hz trivial]
  exact hs

/-- A connection whose channels have carried frames of stream 1. -/
def usedConnection : Connection Unit :=
  { initial () with
    channels := fun i => { (initial ()).channels i with lastOutHeader.hf.si := 1, lastOutStreamId := 1 } }

/-- Its other end. -/
def usedPlayer : Connection (Bool → Assembly) :=
  { initial fun _ => .empty with
    channels := fun i => { (initial ()).channels i with lastInHeader.hf.si := 1 } }

theorem usedConnection_agree : Agree usedConnection usedPlayer where
  selected := rfl
  chunkSize := rfl
  chunkSize_ge := Nat.le_refl _
  id _ := rfl
  channels _ := ⟨rfl, rfl, rfl, rfl, fun _ => ⟨rfl, rfl, rfl⟩, fun h => absurd rfl h⟩

theorem usedConnection_ready : Ready 1 (idleStream false) usedConnection where
  running := rfl
  drops b' h := by cases b' <;> cases h
  chunkSize := rfl
  lt := by decide
  apart := (by decide : 4 ≠ 5)
  onTrack := (idleStream_ready false).onTrack
  bucket := (idleStream_ready false).bucket
  idle b' := by cases b' <;> rfl

theorem usedConnection_behind : Behind (idleStream false) usedConnection fun _ => 0 where
  behind b := by cases b <;> rfl
  stream b := by cases b <;> rfl
  nonneg b := by cases b <;> exact Int.le_refl _
  le b := by cases b <;> exact Int.le_refl _

theorem fourOps_orderly_true : Orderly 1 True (.begin (idleStream false) usedConnection fun _ => 0) fourOps := by
  refine ⟨⟨⟨⟨by decide, by decide, nofun, fun _ => rfl, nofun⟩, nofun, nofun⟩, fun _ => ?_⟩, fun P h => ?_⟩
  · exact (by decide : (0 : Int) ≤ 40 ∧ (40 : Int) < 2 ^ 32)
  cases h
  refine ⟨⟨⟨⟨by decide, by decide⟩, rfl, by decide, by decide, by decide⟩, fun b => ?_⟩, fun P h => ?_⟩
  · cases b
    · exact (by decide : 5 ≠ 3)
    · exact (by decide : 4 ≠ 3)
  cases h
  refine ⟨⟨⟨⟨by decide, by decide, nofun, fun _ => rfl, nofun⟩, nofun, nofun⟩, fun _ => ?_⟩, fun P h => ?_⟩
  · exact (by decide : (0 : Int) ≤ 40 ∧ (40 : Int) < 2 ^ 32)
  cases h
  refine ⟨⟨⟨⟨by decide, by decide, nofun, nofun, ?_⟩, nofun, nofun⟩, fun _ => ?_⟩, fun P h => trivial⟩
  · rintro n total h
    cases h
    exact ⟨rfl, rfl⟩
  · exact (by decide : (40 : Int) ≤ 40 ∧ (40 : Int) < 2 ^ 32)

theorem frames_timed_fourOps :
    ∃ P bytes, (Play.begin (idleStream false) usedConnection fun _ => 0).run fourOps = some P ∧
      P.connection.outputBuffer = bytes ∧ (∀ f, timeOf P.stream f = timeOf (idleStream false) f) ∧
      ∀ parts, parts.flatten = bytes → ∃ q', runParts (processBytes (frameApp 1)) usedPlayer [] parts =
          .ok (q', []) ∧ Agree P.connection q' ∧ ∀ b,
        (q'.app b).frames.Sublist (P.fed b).frames ∧
          ((idleStream false).canDropFrames = false → (q'.app b).frames = (P.fed b).frames) :=
  frames_timed usedConnection_ready usedConnection_behind usedConnection_agree rfl fourOps_orderly_true

end XH.Proof.Live
