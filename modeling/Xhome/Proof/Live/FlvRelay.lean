import Xhome.Proof.Live.LiveFlv

/-!
# From an FLV publisher to its players

The bytes of an FLV publisher arrive in any parts, players join in between, their
sockets take what they can, and other things are sent to them (`FlvOp`). As long
as the publisher's connection lasts, what has been received is the header of the
file and whole tags, up to a rest that is not one yet, and each player gets a part
of the frames in these tags, each of them whole and in its order: `flv_relayed`.
-/

namespace XH.Proof.Live

open Impl.Live Impl.Live.LiveFlv
open Impl.Cutter (byteAt)

variable {τ ν : Type} {c : Codecs ν} {h : FlvHost}

/-! ## The server and what happens to it -/

/-- The server's end of the publisher's connection with what is in its buffer, and
each player as it was when it joined, with the number of its stream. -/
structure FlvRelay (τ ν : Type) where
  server : LiveFlv τ ν
  buffer : List Byte
  joined : List (Nat × Player τ ν)

inductive FlvOp (τ ν : Type) where
  /-- Bytes of the publisher arrive. -/
  | receive (part : List Byte)
  | join (si : Nat) (x : Player τ ν)
  /-- The socket of the `i`-th player takes `n` bytes. -/
  | drain (i n : Nat)
  /-- Something else is sent to the `i`-th player. -/
  | send (i : Nat) (x : Send)

/-- The players of the publisher's stream, if there is one yet. -/
def outStreamsOf (s : LiveFlv τ ν) : List (Player τ ν) := s.stream.elim [] (·.base.outStreams)

def modifyPlayer (s : LiveFlv τ ν) (i : Nat) (f : Player τ ν → Player τ ν) : LiveFlv τ ν :=
  { s with stream := s.stream.map fun stream =>
      { stream with base := { stream.base with outStreams := stream.base.outStreams.modify i f } } }

/-- A step, unless it ends the publisher's connection. -/
def FlvRelay.step (c : Codecs ν) (h : FlvHost) (R : FlvRelay τ ν) : FlvOp τ ν → Option (FlvRelay τ ν)
  | .receive part => (R.server.signalInputData c h (R.buffer ++ part)).toOption.map fun (s, rest) => ⟨s, rest, R.joined⟩
  | .join si x => R.server.stream.map fun stream =>
    ⟨{ R.server with stream := some (stream.link c x) }, R.buffer, (si, x) :: R.joined⟩
  | .drain i n => some ⟨modifyPlayer R.server i (drained n), R.buffer, R.joined⟩
  | .send i x => some ⟨modifyPlayer R.server i (sentToo x), R.buffer, R.joined⟩

def FlvRelay.run (c : Codecs ν) (h : FlvHost) (R : FlvRelay τ ν) (ops : List (FlvOp τ ν)) : Option (FlvRelay τ ν) :=
  ops.foldlM (FlvRelay.step c h) R

/-- An FLV publisher's frames are not fed in chunks. -/
def MayFlv (R : FlvRelay τ ν) : FlvOp τ ν → Prop
  | .receive _ => True
  | .join si x => New si x ∧ x.stream.feederChunkSize = 0xffffffff
  | .drain _ _ => True
  | .send i y => ∀ x₀ x, R.joined[i]? = some x₀ → (outStreamsOf R.server)[i]? = some x →
    Allowed x.connection y ∧ Elsewhere x₀.1 (fun b => (x.stream.track b).channel) y

def OrderlyFlv (c : Codecs ν) (h : FlvHost) : FlvRelay τ ν → List (FlvOp τ ν) → Prop
  | _, [] => True
  | R, op :: ops => MayFlv R op ∧ ∀ R', R.step c h op = some R' → OrderlyFlv c h R' ops

/-! ## The invariant -/

/-- The frames of the tags, with no times. -/
def flvFrames (tags : List (List Byte)) (b : Bool) : Assembly :=
  ⟨(tags.filter fun raw => byteAt raw 0 = if b then 8 else 9).map fun raw => (0, tagData raw), 0, []⟩

/-- What has been received are the header of the file, these tags, and the rest. -/
def Received (headerParsed : Bool) (bytes : List Byte) (tags : List (List Byte)) (rest : List Byte) : Prop :=
  if headerParsed then
    ∃ header : List Byte, header.length = 13 ∧ bytes = header ++ (tags.flatten ++ rest) ∧ ∀ raw ∈ tags, WholeTag raw
  else tags = [] ∧ bytes = rest

/-- The stream and its players, of which `tags` have been pumped. -/
structure FlvInv (joined : List (Nat × Player τ ν)) (tags : List (List Byte)) (s : LiveFlv τ ν) : Prop where
  kept : ∀ stream, s.stream = some stream → Kept 0xffffffff (flvFrames tags) stream.base
  players : List.Forall₂ (fun x₀ x => x₀.2.stream.feederChunkSize = 0xffffffff ∧
    Playing x₀.1 x₀.2 x (flvFrames tags) fun _ => none) joined (outStreamsOf s)

theorem Playing.sameFrames {si : Nat} {x₀ x : Player τ ν} {D D' : Bool → Assembly} {g : Bool → Progress}
    (hp : Playing si x₀ x D g) (hs : SameFrames D D') : Playing si x₀ x D' g := by
  obtain ⟨run, A, ha, he, hf, hinv⟩ := hp.sent
  exact ⟨hp.live, hp.feeder, run, A, ha, he, hf, hinv.retimed hs fun _ => 0⟩

/-! ## A tag -/

/-- A frame more. -/
theorem flvFrames_fed {tags : List (List Byte)} {raw : List Byte} {b : Bool} (hb : byteAt raw 0 = if b then 8 else 9) :
    SameFrames (Function.update (flvFrames tags) b ((flvFrames tags b).add (tagData raw) (tagData raw).length 0))
      (flvFrames (tags ++ [raw])) := by
  intro b'
  have happ : (flvFrames (tags ++ [raw]) b').frames = (flvFrames tags b').frames ++
      if byteAt raw 0 = if b' then 8 else 9 then [(0, tagData raw)] else [] := by
    simp only [flvFrames, List.filter_append, List.filter_cons, List.filter_nil, List.map_append, decide_eq_true_eq]
    by_cases hc : byteAt raw 0 = if b' then 8 else 9
    · rw [if_pos hc, if_pos hc]
      rfl
    · rw [if_neg hc, if_neg hc]
      rfl
  by_cases e : b' = b
  · subst e
    rw [Function.update_self, happ, if_pos hb, ((flvFrames tags b').add_eq _ _ _).1,
      ((flvFrames tags b').add_eq _ _ _).2.2]
    simp [flvFrames]
  · rw [Function.update_of_ne e, happ, if_neg, List.append_nil]
    · exact ⟨rfl, rfl⟩
    · rw [hb]
      cases b <;> cases b' <;> simp at e ⊢

/-- The stream is fed a whole tag. -/
theorem liveFeedData_some {s s' : LiveFlvStream τ ν} {d : List Byte} {timestamp : Int} {b : Bool}
    (he : s.feedData c d timestamp b = some s') :
    ∃ time, s'.base.outStreams = s.base.outStreams.map (fun x =>
        if x.enqueuedForDelete then x else x.feed c d 0 d.length time b) ∧
      (s'.base.codecInit = s.base.codecInit ∨
        SetsUp b d ∧ s'.base.codecInit = Function.update s.base.codecInit b d) := by
  rw [LiveFlvStream.feedData] at he
  obtain ⟨base, hs, rfl⟩ := Option.map_eq_some_iff.mp he
  obtain ⟨ho, -, hc⟩ := cacheCodecInit_some hs
  rw [← ho]
  exact ⟨_, rfl, hc.imp id fun hc => hc.2⟩

theorem FlvInv.fed {joined : List (Nat × Player τ ν)} {tags : List (List Byte)} {s s' : LiveFlv τ ν} {raw : List Byte}
    {b : Bool} {timestamp : Nat} (hi : FlvInv joined tags s) (hw : WholeTag raw)
    (hb : byteAt raw 0 = if b then 8 else 9) (he : s.fed c (tagData raw) timestamp b = some s') :
    FlvInv joined (tags ++ [raw]) s' := by
  have hlen : (tagData raw).length < 2 ^ 20 := by
    have := hw.2.2
    rw [tagData, List.length_take]
    omega
  rw [LiveFlv.fed] at he
  split at he
  · rename_i stream hs
    obtain ⟨stream', hs', rfl⟩ := Option.map_eq_some_iff.mp he
    obtain ⟨time, ho, hc⟩ := liveFeedData_some hs'
    refine ⟨fun st e => ?_, ?_⟩
    · cases e
      have hk := (hi.kept stream hs).add (fun _ => rfl) (fun _ _ => rfl) (by omega) (by omega)
        (hc.imp id fun hc => ⟨rfl, hc⟩) 0
      intro b' hne
      obtain ⟨h₁, h₂, h₃, h₄⟩ := hk b' hne
      rw [← (flvFrames_fed hb b').2] at h₄
      exact ⟨h₁, h₂, h₃, h₄⟩
    · have hp := hi.players
      rw [outStreamsOf, hs] at hp
      show List.Forall₂ _ joined stream'.base.outStreams
      rw [ho]
      refine forall₂_map_right hp fun x₀ x hx => ⟨hx.1, ?_⟩
      obtain ⟨run, A, -, -, -, hinv⟩ := hx.2.sent
      have hlt : x.stream.chunkSize < 0xffffffff := by
        have h₁ : x.stream.chunkSize = x.connection.outboundChunkSize := hinv.chunkSize
        have h₂ : x.connection.outboundChunkSize < 0xffffffff := hinv.lt
        omega
      have hfits : Fits x.stream none (x.read c (tagData raw) 0 (tagData raw).length time b).2 := by
        refine ⟨⟨?_, Nat.le_of_eq (Nat.zero_add _), fun e => ?_, fun _ => rfl, fun n total e => ?_⟩, fun _ _ => rfl,
          fun e => ?_⟩
        · show (tagData raw).length < 2 ^ 24
          omega
        · show (tagData raw).length = 0
          rw [show tagData raw = [] from e, List.length_nil]
        · cases e
        · rw [hx.2.feeder, hx.1] at e
          omega
      have hfed := (hx.2.feed c hfits 0).sameFrames (flvFrames_fed hb)
      have hafter : after (x.read c (tagData raw) 0 (tagData raw).length time b).2 = none := if_pos (Nat.zero_add _)
      rw [hafter, Function.update_eq_self b fun _ : Bool => (none : Progress)] at hfed
      rw [if_neg (by rw [hx.2.live]; decide)]
      exact hfed
  · rename_i hs
    cases he
    refine ⟨fun st e => ?_, ?_⟩
    · rw [hs] at e
      cases e
    · have hp := hi.players
      rw [outStreamsOf, hs] at hp ⊢
      cases hp
      exact .nil

/-- The stream is there now, with no players. -/
theorem FlvInv.initializeStream {joined : List (Nat × Player τ ν)} {tags : List (List Byte)} {s s' : LiveFlv τ ν}
    {name : List Byte} (hi : FlvInv joined tags s) (hs : s.stream = none)
    (he : s.initializeStream h name = some s') (tags' : List (List Byte)) : FlvInv joined tags' s' := by
  have hp := hi.players
  rw [outStreamsOf, hs] at hp
  cases hp
  rw [LiveFlv.initializeStream] at he
  split at he
  · cases he
    refine ⟨fun st e => ?_, .nil⟩
    cases e
    exact fun b hne => absurd rfl hne
  · cases he

theorem FlvInv.pumped {joined : List (Nat × Player τ ν)} {tags : List (List Byte)} {s s' : LiveFlv τ ν} {raw : List Byte}
    (hi : FlvInv joined tags s) (hw : WholeTag raw)
    (he : s.pumped c h (byteAt raw 0) (tagData raw) (tagTimestamp raw) = some s') : FlvInv joined (tags ++ [raw]) s' := by
  rw [LiveFlv.pumped] at he
  split at he
  · rename_i hb
    exact FlvInv.fed (b := true) hi hw hb he
  · rename_i h₈
    split at he
    · rename_i hb
      exact FlvInv.fed (b := false) hi hw hb he
    · rename_i h₉
      split at he
      · have hsame : flvFrames (tags ++ [raw]) = flvFrames tags := by
          funext b
          rw [flvFrames, flvFrames, List.filter_append, List.filter_cons_of_neg, List.filter_nil, List.append_nil]
          cases b <;> simp [h₈, h₉]
        rw [notified] at he
        obtain ⟨name, -, he⟩ := Option.bind_eq_some_iff.mp he
        split at he
        · rename_i hs
          exact hi.initializeStream (Option.isNone_iff_eq_none.mp hs) he _
        · cases he
          exact ⟨hsame ▸ hi.kept, hsame ▸ hi.players⟩
      · cases he

/-! ## What is received -/

/-- A round that goes on. -/
theorem FlvInv.round {joined : List (Nat × Player τ ν)} {tags : List (List Byte)} {s s' : LiveFlv τ ν}
    {bytes buffer rest : List Byte} (hi : FlvInv joined tags s) (hr : Received s.headerParsed bytes tags buffer)
    (ht : Round c h s s' buffer rest) :
    ∃ tags', FlvInv joined tags' s' ∧ Received s'.headerParsed bytes tags' rest := by
  cases ht with
  | header hs hl hs' hrest =>
    rw [Received, hs, if_neg (by decide)] at hr
    obtain ⟨rfl, rfl⟩ := hr
    subst hs' hrest
    refine ⟨[], ⟨hi.kept, hi.players⟩, ?_⟩
    rw [Received, if_pos rfl]
    refine ⟨bytes.take 13, ?_, (List.take_append_drop 13 bytes).symm, fun raw hm => absurd hm List.not_mem_nil⟩
    rw [List.length_take]
    omega
  | tag raw hs hb hw hp =>
    rw [Received, hs, if_pos rfl] at hr
    obtain ⟨header, hl, hbytes, hall⟩ := hr
    refine ⟨tags ++ [raw], hi.pumped hw hp, ?_⟩
    rw [Received, (pumped_keeps hp).1, hs, if_pos rfl]
    refine ⟨header, hl, ?_, fun raw' hm => ?_⟩
    · rw [hbytes, hb, List.flatten_append, List.flatten_singleton, List.append_assoc]
    · rcases List.mem_append.mp hm with hm | hm
      · exact hall raw' hm
      · rw [List.mem_singleton.mp hm]
        exact hw

/-- The rounds of one call. -/
theorem FlvInv.rounds {joined : List (Nat × Player τ ν)} {bytes : List Byte} :
    ∀ {buffer rest : List Byte} {tags : List (List Byte)} {s s' : LiveFlv τ ν}, FlvInv joined tags s →
      Received s.headerParsed bytes tags buffer →
      Resumable.run (inputTurn c h) inputRounds s buffer = .ok (s', rest) →
      ∃ tags', FlvInv joined tags' s' ∧ Received s'.headerParsed bytes tags' rest ∧ Incomplete s' rest := by
  intro buffer
  induction hn : buffer.length using Nat.strongRecOn generalizing buffer with
  | _ n ih =>
    intro rest tags s s' hi hr he
    rw [inputTurn_resumable.run_eq] at he
    cases ht : inputTurn c h s buffer with
    | wait s₁ rest₁ =>
      rw [ht] at he
      cases he
      obtain ⟨rfl, rfl, hinc⟩ := inputTurn_wait ht
      exact ⟨tags, hi, hr, hinc⟩
    | fail s₁ =>
      rw [ht] at he
      cases he
    | next s₁ rest₁ =>
      rw [ht] at he
      obtain ⟨tags₁, hi₁, hr₁⟩ := hi.round hr (inputTurn_next ht)
      exact ih _ (hn ▸ inputTurn_resumable.left_lt ht) rfl hi₁ hr₁ he

/-! ## A run -/

theorem FlvInv.initialized {joined : List (Nat × Player τ ν)} {tags : List (List Byte)} {s s' : LiveFlv τ ν}
    (hi : FlvInv joined tags s) (he : s.initialized h = some s') : FlvInv joined tags s' := by
  rw [LiveFlv.initialized] at he
  split at he
  · rename_i hs
    rw [Bool.and_eq_true] at hs
    exact hi.initializeStream (Option.isNone_iff_eq_none.mp hs.1) he tags
  · cases he
    exact hi

/-- What the players do besides. -/
theorem FlvInv.modified {joined : List (Nat × Player τ ν)} {tags : List (List Byte)} {s : LiveFlv τ ν}
    (hi : FlvInv joined tags s) {i : Nat} {f : Player τ ν → Player τ ν}
    (hf : ∀ x₀ x, joined[i]? = some x₀ → (outStreamsOf s)[i]? = some x →
      Playing x₀.1 x₀.2 x (flvFrames tags) (fun _ => none) →
      Playing x₀.1 x₀.2 (f x) (flvFrames tags) fun _ => none) : FlvInv joined tags (modifyPlayer s i f) := by
  have hp : List.Forall₂ (fun x₀ x => x₀.2.stream.feederChunkSize = 0xffffffff ∧
      Playing x₀.1 x₀.2 x (flvFrames tags) fun _ => none) joined ((outStreamsOf s).modify i f) :=
    forall₂_modify hi.players i fun x₀ x h₀ hx hr => ⟨hr.1, hf x₀ x h₀ hx hr.2⟩
  refine ⟨fun st e => ?_, ?_⟩
  · obtain ⟨stream, hs, rfl⟩ := Option.map_eq_some_iff.mp e
    exact hi.kept stream hs
  · rw [outStreamsOf] at hp ⊢
    cases hs : s.stream with
    | none =>
      rw [hs, Option.elim_none, List.modify_nil] at hp
      rw [modifyPlayer, hs]
      exact hp
    | some stream =>
      rw [hs] at hp
      rw [modifyPlayer, hs]
      exact hp

theorem FlvInv.joined {joined : List (Nat × Player τ ν)} {tags : List (List Byte)} {s : LiveFlv τ ν} {sp : Nat}
    {x : Player τ ν} {stream : LiveFlvStream τ ν} (hi : FlvInv joined tags s) (hs : s.stream = some stream)
    (hn : New sp x) (hk : x.stream.feederChunkSize = 0xffffffff) :
    FlvInv ((sp, x) :: joined) tags { s with stream := some (stream.link c x) } := by
  obtain ⟨D, hp, hw, hsub⟩ := hn.attached (hk ▸ hi.kept stream hs) c stream.base.lastTime
  refine ⟨fun st e => ?_, ?_⟩
  · cases e
    exact hi.kept stream hs
  · have hps := hi.players
    rw [outStreamsOf, hs] at hps
    refine .cons ⟨hk, hp.rebase hw hsub (fun _ _ => rfl) (fun b n total e => ?_)⟩ hps
    cases e

/-- What is received in a step. -/
def partOf : FlvOp τ ν → List Byte
  | .receive part => part
  | .join _ _ => []
  | .drain _ _ => []
  | .send _ _ => []

/-- What holds of the server after these bytes. -/
structure FlvState (bytes : List Byte) (tags : List (List Byte)) (R : FlvRelay τ ν) : Prop where
  inv : FlvInv R.joined tags R.server
  received : Received R.server.headerParsed bytes tags R.buffer
  incomplete : Incomplete R.server R.buffer

theorem FlvState.step {bytes : List Byte} {tags : List (List Byte)} {R R' : FlvRelay τ ν} {op : FlvOp τ ν}
    (hR : FlvState bytes tags R) (hm : MayFlv R op) (he : R.step c h op = some R') :
    ∃ tags', FlvState (bytes ++ partOf op) tags' R' := by
  cases op with
  | receive part =>
    obtain ⟨⟨s, rest⟩, hrun, rfl⟩ := Option.map_eq_some_iff.mp he
    cases hs : R.server.initialized h with
    | none =>
      rw [signalInputData, hs] at hrun
      cases hrun
    | some s₁ =>
      have hrec : Received s₁.headerParsed (bytes ++ part) tags (R.buffer ++ part) := by
        have hr := hR.received
        rw [Received] at hr ⊢
        rw [initialized_headerParsed hs]
        split at hr
        · rename_i hp
          obtain ⟨header, hl, hb, hall⟩ := hr
          rw [if_pos hp]
          refine ⟨header, hl, ?_, hall⟩
          rw [hb, List.append_assoc, List.append_assoc]
        · rename_i hp
          rw [if_neg hp, hr.2]
          exact ⟨hr.1, rfl⟩
      rw [signalInputData_of_initialized hs] at hrun
      cases hl : Resumable.run (inputTurn c h) inputRounds s₁ (R.buffer ++ part) with
      | error s' =>
        rw [hl] at hrun
        cases hrun
      | ok t =>
        rw [hl] at hrun
        cases hrun
        obtain ⟨tags', hi, hr, hinc⟩ := (hR.inv.initialized hs).rounds hrec hl
        exact ⟨tags', hi, hr, hinc⟩
  | join si x =>
    obtain ⟨stream, hs, rfl⟩ := Option.map_eq_some_iff.mp he
    rw [partOf, List.append_nil]
    exact ⟨tags, hR.inv.joined hs hm.1 hm.2, hR.received, hR.incomplete⟩
  | drain i n =>
    cases he
    rw [partOf, List.append_nil]
    exact ⟨tags, hR.inv.modified fun x₀ x _ _ hx => ⟨hx.live, hx.feeder, hx.sent⟩, hR.received, hR.incomplete⟩
  | send i y =>
    cases he
    rw [partOf, List.append_nil]
    refine ⟨tags, hR.inv.modified fun x₀ x h₀ hx hp => ?_, hR.received, hR.incomplete⟩
    have hmay : May x₀.1 False (playOf x (flvFrames tags) fun _ => none) (.send y) := hm x₀ x h₀ hx
    obtain ⟨P, he, hp'⟩ := hp.steps (sentToo y x) (flvFrames tags) hmay fun P he => by
      cases he
      exact ⟨rfl, rfl, fun _ => ⟨rfl, rfl⟩, hp.live⟩
    cases he
    exact hp'

/-- All that has been received. -/
def allReceived (ops : List (FlvOp τ ν)) : List Byte := ops.flatMap partOf

theorem FlvState.run {ops : List (FlvOp τ ν)} :
    ∀ {bytes : List Byte} {tags : List (List Byte)} {R R' : FlvRelay τ ν}, FlvState bytes tags R →
      OrderlyFlv c h R ops → R.run c h ops = some R' → ∃ tags', FlvState (bytes ++ allReceived ops) tags' R' := by
  induction ops with
  | nil =>
    intro bytes tags R R' hR ho he
    cases he
    rw [allReceived, List.flatMap_nil, List.append_nil]
    exact ⟨tags, hR⟩
  | cons op ops ih =>
    intro bytes tags R R' hR ho he
    rw [FlvRelay.run, List.foldlM_cons] at he
    obtain ⟨R₁, he₁, he⟩ := Option.bind_eq_some_iff.mp he
    obtain ⟨tags₁, h₁⟩ := hR.step ho.1 he₁
    rw [allReceived, List.flatMap_cons, ← List.append_assoc]
    exact ih h₁ (ho.2 R₁ he₁) he

/-- A connection that nothing has been received on. -/
def newFlv (waitForMetadata : Bool) : FlvRelay τ ν := ⟨⟨false, waitForMetadata, none⟩, [], []⟩

/-- Whatever the publisher sends in whatever parts, and whatever the players do in
between: as long as its connection lasts, it has sent the header of the file and
whole tags, up to a rest that is not a whole one, nobody is enqueued for delete, and
each player gets a part of the frames in these tags, each of them whole and in its
order. -/
theorem flv_relayed {waitForMetadata : Bool} {ops : List (FlvOp τ ν)} {R : FlvRelay τ ν}
    (ho : OrderlyFlv c h (newFlv waitForMetadata) ops) (he : (newFlv waitForMetadata).run c h ops = some R) :
    ∃ tags, Received R.server.headerParsed (allReceived ops) tags R.buffer ∧ Incomplete R.server R.buffer ∧
      List.Forall₂ (Gets (flvFrames tags)) R.joined (outStreamsOf R.server) := by
  have h₀ : FlvState [] [] (newFlv waitForMetadata : FlvRelay τ ν) :=
    ⟨⟨nofun, .nil⟩, ⟨rfl, rfl⟩, Nat.zero_lt_succ 12⟩
  obtain ⟨tags, hR⟩ := h₀.run ho he
  exact ⟨tags, hR.received, hR.incomplete, hR.inv.players.imp fun x₀ x hx => hx.2.gets⟩

/-- A host that lets every name be free, and reads no script tags. -/
def anyHost : FlvHost := ⟨fun _ => true, fun _ => none⟩

/-- A video frame of an FLV file. -/
def videoTag : List Byte := [9, 0, 0, 3, 0, 0, 0, 0, 0, 0, 0, 0x17, 1, 0, 0, 0, 0, 14]

/-- The header of a file and a frame, a player, and the frame again in two parts. -/
def fourFlvOps : List (FlvOp Unit Unit) :=
  [.receive (List.replicate 13 0 ++ videoTag), .join 1 { newPlayer with stream := idleStream true },
    .receive (videoTag.take 12), .receive (videoTag.drop 12)]

theorem fourFlvOps_orderly : OrderlyFlv anyCodecs anyHost (newFlv false) fourFlvOps := by
  refine ⟨trivial, fun R hR => ⟨⟨⟨?_, ?_, ?_, rfl⟩, rfl⟩, fun R' hR' => ⟨trivial, fun _ _ => ⟨trivial, fun _ _ => trivial⟩⟩⟩⟩
  · exact idleStream_ready true
  · decide
  · intro b
    cases b <;> rfl

theorem flv_relayed_fourFlvOps : ∃ R tags, (newFlv false).run anyCodecs anyHost fourFlvOps = some R ∧
    Received R.server.headerParsed (allReceived fourFlvOps) tags R.buffer ∧ Incomplete R.server R.buffer ∧
    List.Forall₂ (Gets (flvFrames tags)) R.joined (outStreamsOf R.server) := by
  obtain ⟨R, hR⟩ : ∃ R, (newFlv false).run anyCodecs anyHost fourFlvOps = some R :=
    Option.isSome_iff_exists.mp (by decide)
  obtain ⟨tags, h⟩ := flv_relayed fourFlvOps_orderly hR
  exact ⟨R, tags, hR, h⟩

end XH.Proof.Live
