import Xhome.Impl.Live.InStream
import Xhome.Proof.Live.Frames

/-!
# A player of a publisher

Each chunk of a publisher's frame is the next piece of it for a player
(`piece_of_chunk`). `Playing` says what a player has got while pieces were fed;
the next piece keeps it (`Playing.feed`). A player that joins is fed what sets
the codecs up and then waits for the start of a frame (`New.attached`,
`Playing.rebase`).
-/

namespace XH.Proof.Live

open Impl.Live Impl.Live.Connection Impl.Live.OutStream

variable {υ σ τ ν : Type} {c : Codecs ν} {si : Nat} {ch : Bool → Nat}

/-! ## The pieces that a publisher sends -/

/-- How far the message under way on a channel has come. -/
def progressOf (u : Connection υ) (i : Nat) : Progress :=
  if (u.channels i).lastOutProcBytes = 0 then none
  else some ((u.channels i).lastOutProcBytes, (u.channels i).lastOutHeader.hf.ml.toNat)

/-- What a chunk of a frame hands on is the next piece of it. -/
theorem piece_of_chunk {u : Connection υ} {q : Connection σ} (hag : Agree u q) {h : Header} {d : List Byte}
    (ha : Allowed u (.chunk h d)) {f : Feed} (hd : f.data = d)
    (hn : f.processedLength = (u.channels h.ci).lastOutProcBytes) (hl : f.totalLength = h.hf.ml.toNat) :
    Piece (progressOf u h.ci) f ∧ progressOf (sendChunk u h d) h.ci = after f ∧
      d.length = min u.outboundChunkSize (f.totalLength - f.processedLength) := by
  obtain ⟨hf, -, -, hlen⟩ := ha
  have h24 := h.hf.ml.isLt
  have hk := hag.chunkSize_ge
  have hlt : f.processedLength ≠ 0 → f.processedLength < f.totalLength := fun e => by
    rw [hn] at e ⊢
    rw [hl, ← hf.same e]
    exact ((hag.channels h.ci).underWay e).2
  rw [chunkSizeOf, ← hn, ← hl] at hlen
  rw [← hl] at h24
  refine ⟨⟨h24, ?_, fun e => ?_, fun e => ?_, fun n total e => ?_⟩, ?_, hlen⟩
  · rw [hd]
    omega
  · rw [← hd, e, List.length_nil] at hlen
    omega
  · rw [progressOf] at e
    split at e
    · rename_i e'
      exact hn.trans e'
    · cases e
  · rw [progressOf] at e
    split at e
    · cases e
    · rename_i e'
      cases e
      exact ⟨hn, by rw [hl, hf.same e']⟩
  · obtain ⟨hty, ia, time, hch⟩ := exists_chosen h (u.channels h.ci)
    have hproc : ((sendChunk u h d).channels h.ci).lastOutProcBytes = (f.processedLength + d.length) % f.totalLength := by
      rw [sendChunk_channels hf.isChannel, hn, hl]
      rfl
    have hhd : ((sendChunk u h d).channels h.ci).lastOutHeader.hf = h.hf := by
      rw [sendChunk_channels hf.isChannel]
      simp only [sentTo, hch.hf]
    rw [progressOf, hproc, hhd, after, hd, ← hl]
    by_cases e : f.processedLength + d.length = f.totalLength
    · rw [if_pos e, e, Nat.mod_self, if_pos rfl]
    · rw [if_neg e, Nat.mod_eq_of_lt (by omega), if_neg (by omega)]

/-! ## A player -/

/-- What is fed to a player, with the times left out of it. -/
def playOf (x : Player τ ν) (D : Bool → Assembly) (g : Bool → Progress) : Play τ :=
  ⟨x.stream, x.connection, D, g, fun _ => 0⟩

/-- The same frames, maybe at other times. -/
def SameFrames (D D' : Bool → Assembly) : Prop :=
  ∀ b, (D' b).part = (D b).part ∧ (D' b).frames.map (·.2) = (D b).frames.map (·.2)

theorem whole_false_iff {x y : Assembly} :
    Whole False x y ↔ (x.frames.map (·.2)).Sublist (y.frames.map (·.2)) := by
  rw [List.sublist_map_iff]
  constructor
  · rintro ⟨zs, hs, hm, -⟩
    exact ⟨zs, hs, hm⟩
  · rintro ⟨zs, hs, hm⟩
    exact ⟨zs, hs, hm, False.elim⟩

theorem PlayInv.retimed {P : Play τ} {A : Bool → Assembly} (h : PlayInv si False P A) {D : Bool → Assembly}
    (hs : SameFrames P.fed D) (latest : Bool → Int) :
    PlayInv si False ⟨P.stream, P.connection, D, P.progress, latest⟩ A := by
  refine ⟨h.running, h.drops, h.chunkSize, h.ge, h.lt, h.apart, fun b => ?_⟩
  have hk := h.kind b
  refine ⟨hk.onTrack, ?_, ?_, False.elim, False.elim⟩
  · rw [(hs b).1]
    exact hk.stage
  · rw [whole_false_iff, (hs b).2]
    exact whole_false_iff.mp hk.whole

/-- The player `x`, that has joined as `x₀`, while `D` is what has been fed. -/
structure Playing (si : Nat) (x₀ x : Player τ ν) (D : Bool → Assembly) (g : Bool → Progress) : Prop where
  live : x.enqueuedForDelete = false
  feeder : x.stream.feederChunkSize = x₀.stream.feederChunkSize
  sent : ∃ run A, AllAllowed x₀.connection run ∧ sendAll x₀.connection run = x.connection ∧
    (allHandedOn x₀.connection run).foldlM (deliver (frameApp si)) (fun _ => .empty) = some A ∧
    PlayInv si False (playOf x D g) A

theorem Playing.steps {x₀ x : Player τ ν} {D : Bool → Assembly} {g : Bool → Progress} {op : PlayerOp}
    (h : Playing si x₀ x D g) (x' : Player τ ν) (D' : Bool → Assembly) (hm : May si False (playOf x D g) op)
    (hx : ∀ P, (playOf x D g).step op = some P →
      P.stream = x'.stream ∧ P.connection = x'.connection ∧ SameFrames P.fed D' ∧ x'.enqueuedForDelete = false) :
    ∃ P, (playOf x D g).step op = some P ∧ Playing si x₀ x' D' P.progress := by
  obtain ⟨run, A, ha, hs, hf, hinv⟩ := h.sent
  obtain ⟨P, run', he, hst⟩ := step_steps hinv hm
  obtain ⟨hps, hpc, hsame, hlive⟩ := hx P he
  obtain ⟨A', hf', hinv'⟩ := hst.handed
  refine ⟨P, he, hlive, ?_, run ++ run', A', ?_, ?_, ?_, ?_⟩
  · rw [← hps, hst.feederChunkSize]
    exact h.feeder
  · rw [allAllowed_append, hs]
    exact ⟨ha, hst.allowed⟩
  · rw [sendAll_append, hs, ← hpc]
    exact hst.sends
  · rw [allHandedOn_append, List.foldlM_append, hf, hs]
    exact hf'
  · have := hinv'.retimed hsame fun _ => 0
    rw [hps, hpc] at this
    exact this

theorem sameFrames_add (D : Bool → Assembly) (b : Bool) (data : List Byte) (total : Nat) (time time' : Int) :
    SameFrames (Function.update D b ((D b).add data total time)) (Function.update D b ((D b).add data total time')) := by
  intro b'
  by_cases hb : b' = b
  · subst hb
    simp only [Function.update_self]
    obtain ⟨h₁, -, h₂⟩ := (D b').add_eq data total time
    obtain ⟨h₁', -, h₂'⟩ := (D b').add_eq data total time'
    refine ⟨h₁'.trans h₁.symm, ?_⟩
    rw [h₂, h₂']
    split
    · simp only [List.map_append, List.map_cons, List.map_nil]
    · rfl
  · rw [Function.update_of_ne hb, Function.update_of_ne hb]
    exact ⟨rfl, rfl⟩

theorem feed_of_feedData {x : Player τ ν} {data : List Byte} {n total : Nat} {time : Int} {b : Bool} {nal : ν}
    {f : Feed} {s : OutStream} {p : Connection τ} (hr : x.read c data n total time b = (nal, f))
    (hs : x.stream.feedData x.connection f = some (s, p)) :
    x.feed c data n total time b = { x with stream := s, connection := p, nal := nal } := by
  simp only [Player.feed, hr, hs]

/-- A piece that is handed on to a player. -/
theorem Playing.feed {x₀ x : Player τ ν} {D : Bool → Assembly} {g : Bool → Progress} (h : Playing si x₀ x D g)
    {data : List Byte} {n total : Nat} {time : Int} {b : Bool} (c : Codecs ν)
    (hf : Fits x.stream (g b) (x.read c data n total time b).2) (time' : Int) :
    Playing si x₀ (x.feed c data n total time b) (Function.update D b ((D b).add data total time'))
      (Function.update g b (after (x.read c data n total time b).2)) := by
  have hr : (x.read c data n total time b).2.data = data ∧ (x.read c data n total time b).2.totalLength = total ∧
      (x.read c data n total time b).2.isAudio = b := ⟨rfl, rfl, rfl⟩
  obtain ⟨nal, f, hread⟩ : ∃ nal f, x.read c data n total time b = (nal, f) := ⟨_, _, rfl⟩
  have hfeed : ∀ s p, x.stream.feedData x.connection f = some (s, p) →
      x.feed c data n total time b = { x with stream := s, connection := p, nal := nal } := fun s p hs =>
    feed_of_feedData hread hs
  rw [hread] at hf hr ⊢
  obtain ⟨rfl, rfl, rfl⟩ := hr
  have hm : May si False (playOf x D g) (.feed f) := ⟨hf, False.elim⟩
  obtain ⟨P, he, hp⟩ := h.steps (x.feed c f.data n f.totalLength time f.isAudio)
    (Function.update D f.isAudio ((D f.isAudio).add f.data f.totalLength time')) hm (fun P he => by
      obtain ⟨⟨s, p⟩, hs, hP⟩ := Option.map_eq_some_iff.mp he
      have hs' : x.stream.feedData x.connection f = some (s, p) := hs
      rw [hfeed s p hs', ← hP]
      exact ⟨rfl, rfl, sameFrames_add D _ _ _ _ _, h.live⟩)
  obtain ⟨⟨s, p⟩, hs, hP⟩ := Option.map_eq_some_iff.mp he
  rw [← hP] at hp
  exact hp

/-! ## A player that joins -/

/-- A player's stream that has not sent anything yet. -/
def Waits (s : OutStream) : Prop := ∀ b, (s.track b).isFirst = true

/-- What may join: a player that is between frames and waits for its first ones. -/
structure New (si : Nat) (x : Player τ ν) : Prop where
  ready : Ready si x.stream x.connection
  chunkSize_ge : 128 ≤ x.connection.outboundChunkSize
  waits : Waits x.stream
  live : x.enqueuedForDelete = false

theorem New.playing {x : Player τ ν} (h : New si x) : Playing si x x (fun _ => .empty) fun _ => none :=
  ⟨h.live, rfl, [], fun _ => .empty, trivial, rfl, rfl, h.ready.playInv h.chunkSize_ge False.elim⟩

/-- What sets a codec up does not end the wait. -/
theorem waits_feedData {s s' : OutStream} {p p' : Connection τ} {f : Feed} (hw : Waits s) (hd : DropsAllowed s)
    (hset : isSetup f = true) (he : s.feedData p f = some (s', p')) : Waits s' := by
  obtain ⟨-, hot, hv⟩ := prepared hd f (p.channels (s.track f.isAudio).channel).lastOutAbsTs
  rw [feedData] at he
  generalize s.prepare f (p.channels (s.track f.isAudio).channel).lastOutAbsTs = r at hot hv he
  have hfirst : Waits r.1 := by
    intro b
    by_cases hb : b = f.isAudio
    · subst hb
      generalize r.1.track f.isAudio = t' at hv
      cases hv with
      | waits _ h => exact h
      | starts _ time h h₀ hne => exact hset
      | drops _ h hc h₀ hδ =>
        rw [hw] at h
        cases h
      | passes _ h h₀ hδ =>
        rw [hw] at h
        cases h
    · rw [Bool.eq_not.mpr hb, hot]
      exact hw _
  split at he
  · cases he
    exact hw
  · obtain ⟨s₁, send⟩ := r
    cases send with
    | false =>
      cases he
      exact hfirst
    | true =>
      simp only [if_true] at he
      obtain ⟨⟨p₁, header, bucket⟩, -, e⟩ := Option.map_eq_some_iff.mp he
      cases e
      intro b
      by_cases hb : b = f.isAudio
      · subst hb
        rw [setTrack_track]
        exact hfirst _
      · rw [Bool.eq_not.mpr hb, setTrack_track_not]
        exact hfirst _

/-- A player that still waits takes up what is under way. -/
theorem Playing.rebase {x₀ x : Player τ ν} {D D' : Bool → Assembly} {g : Bool → Progress}
    (h : Playing si x₀ x D fun _ => none) (hw : Waits x.stream)
    (hfr : ∀ b, ((D b).frames.map (·.2)).Sublist ((D' b).frames.map (·.2)))
    (hnone : ∀ b, g b = none → (D' b).part = [])
    (hsome : ∀ b n total, g b = some (n, total) → (D' b).part.length = n ∧ 0 < n ∧ n < total) :
    Playing si x₀ x D' g := by
  obtain ⟨run, A, ha, hs, hf, hinv⟩ := h.sent
  refine ⟨h.live, h.feeder, run, A, ha, hs, hf, hinv.running, hinv.drops, hinv.chunkSize, hinv.ge, hinv.lt,
    hinv.apart, fun b => ?_⟩
  have hk := hinv.kind b
  refine ⟨hk.onTrack, ?_, whole_false_iff.mpr ((whole_false_iff.mp hk.whole).trans (hfr b)), False.elim, False.elim⟩
  have hst : Stage x.stream x.connection b (A b).part (D b).part none := hk.stage
  show Stage x.stream x.connection b (A b).part (D' b).part (g b)
  cases hst with
  | between hb hi hse hfe =>
    match hg : g b with
    | none => exact .between hb hi hse (hnone b hg)
    | some (n, total) =>
      obtain ⟨h₁, h₂, h₃⟩ := hsome b n total hg
      exact .skips n total (.inl (hw b)) hb hi hse h₁ h₂ h₃

/-- The data are what sets the codec of this kind up. -/
def SetsUp (b : Bool) (data : List Byte) : Prop :=
  (if b then data.getD 0 0 >>> 4 == 10 && data.getD 1 0 == 0 else data.getD 0 0 == 0x17 && data.getD 1 0 == 0) = true

theorem waits_feed {x : Player τ ν} (hw : Waits x.stream) (hd : DropsAllowed x.stream) {data : List Byte} {b : Bool}
    (hs : SetsUp b data) (c : Codecs ν) (n total : Nat) (time : Int) : Waits (x.feed c data n total time b).stream := by
  have hset : isSetup (x.read c data n total time b).2 = true := hs
  obtain ⟨nal, f, hread⟩ : ∃ nal f, x.read c data n total time b = (nal, f) := ⟨_, _, rfl⟩
  rw [hread] at hset
  rw [Player.feed, hread]
  simp only
  split
  · rename_i s p he
    exact waits_feedData hw hd hset he
  · exact hw

theorem Assembly.empty_add (data : List Byte) (time : Int) :
    Assembly.empty.add data data.length time = ⟨[(time, data)], time, []⟩ := by
  simp only [Assembly.add, Assembly.empty, if_true, List.nil_append]

/-- A new player is fed what sets a codec up. -/
theorem Playing.attach {x₀ x : Player τ ν} {D : Bool → Assembly} (h : Playing si x₀ x D fun _ => none)
    (hw : Waits x.stream) {b : Bool} (hD : D b = .empty) {data : List Byte} (hs : SetsUp b data)
    (hlen : data.length < 2 ^ 24) (hk : data.length ≤ x₀.stream.feederChunkSize) (c : Codecs ν) (time : Int) :
    Playing si x₀ (x.feed c data 0 data.length time b) (Function.update D b ⟨[(time, data)], time, []⟩)
        (fun _ => none) ∧
      Waits (x.feed c data 0 data.length time b).stream := by
  obtain ⟨run, A, ha, hse, hf, hinv⟩ := h.sent
  refine ⟨?_, waits_feed hw hinv.drops hs c _ _ _⟩
  have hfits : Fits x.stream none (x.read c data 0 data.length time b).2 := by
    refine ⟨⟨hlen, Nat.le_of_eq (Nat.zero_add _), fun e => ?_, fun _ => rfl, nofun⟩, fun _ _ => rfl, fun e => ?_⟩
    · show data.length = 0
      rw [show data = [] from e, List.length_nil]
    · show data.length = min x.stream.chunkSize (data.length - 0)
      rw [← e, h.feeder]
      omega
  have hp := h.feed c hfits time
  have hafter : after (x.read c data 0 data.length time b).2 = none := if_pos (Nat.zero_add _)
  rw [hafter, Function.update_eq_self b fun _ : Bool => (none : Progress), hD, Assembly.empty_add] at hp
  exact hp

/-- What the server keeps for new players are frames of the publisher. -/
def Kept (K : Nat) (D : Bool → Assembly) (s : InStream τ ν) : Prop :=
  ∀ b, s.codecInit b ≠ [] → SetsUp b (s.codecInit b) ∧ (s.codecInit b).length < 2 ^ 24 ∧
    (s.codecInit b).length ≤ K ∧ s.codecInit b ∈ (D b).frames.map (·.2)

/-- A player that joins. -/
theorem New.attached {x : Player τ ν} {D : Bool → Assembly} {s : InStream τ ν} (h : New si x)
    (hk : Kept x.stream.feederChunkSize D s) (c : Codecs ν) (time : Bool → Int) :
    ∃ D₂, Playing si x (x.feedCodecInit c s.codecInit time) D₂ (fun _ => none) ∧
      Waits (x.feedCodecInit c s.codecInit time).stream ∧
      ∀ b, ((D₂ b).frames.map (·.2)).Sublist ((D b).frames.map (·.2)) := by
  have hempty : ∀ b, ((Assembly.empty).frames.map (·.2)).Sublist ((D b).frames.map (·.2)) := fun _ => List.nil_sublist _
  -- the video's, then the audio's
  obtain ⟨D₁, hp₁, hw₁, ha₁, hs₁⟩ : ∃ D₁, Playing si x
      (if (s.codecInit false).length ≠ 0 then
        x.feed c (s.codecInit false) 0 (s.codecInit false).length (time false) false else x) D₁ (fun _ => none) ∧
      Waits (if (s.codecInit false).length ≠ 0 then
        x.feed c (s.codecInit false) 0 (s.codecInit false).length (time false) false else x).stream ∧
      D₁ true = .empty ∧ ∀ b, ((D₁ b).frames.map (·.2)).Sublist ((D b).frames.map (·.2)) := by
    by_cases e : (s.codecInit false).length ≠ 0
    · obtain ⟨h₁, h₂, h₃, h₄⟩ := hk false fun e' => e (by rw [e']; rfl)
      obtain ⟨hp, hw⟩ := h.playing.attach h.waits rfl h₁ h₂ h₃ c (time false)
      rw [if_pos e]
      refine ⟨_, hp, hw, rfl, fun b => ?_⟩
      cases b with
      | false => exact List.singleton_sublist.mpr h₄
      | true => exact hempty true
    · rw [if_neg e]
      exact ⟨_, h.playing, h.waits, rfl, hempty⟩
  rw [Player.feedCodecInit]
  simp only
  generalize (if (s.codecInit false).length ≠ 0 then
    x.feed c (s.codecInit false) 0 (s.codecInit false).length (time false) false else x) = x₁ at hp₁ hw₁ ⊢
  by_cases e : (s.codecInit true).length ≠ 0
  · obtain ⟨h₁, h₂, h₃, h₄⟩ := hk true fun e' => e (by rw [e']; rfl)
    obtain ⟨hp, hw⟩ := hp₁.attach hw₁ ha₁ h₁ h₂ h₃ c (time true)
    rw [if_pos e]
    refine ⟨_, hp, hw, fun b => ?_⟩
    cases b with
    | false => exact hs₁ false
    | true => exact List.singleton_sublist.mpr h₄
  · rw [if_neg e]
    exact ⟨_, hp₁, hw₁, hs₁⟩

end XH.Proof.Live
