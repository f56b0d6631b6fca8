import Xhome.Proof.Live.Frames

/-!
# A frame is not sent without the ones it refers to

While too much is waiting to be sent `AllowExecution2` drops video frames: those
of level 3 first, then those of level 2, then the key frames of level 1. A frame
of a level above 1 refers to frames before it. Once a frame of level 1 or 2 has
been dropped none of a level above 1 is sent until one of a level of at most 1
has been (`references_sent`), whatever is waiting to be sent and whatever audio
comes between them.
-/

namespace XH.Proof.Live

open Impl.Live Impl.Live.OutStream

variable {τ : Type} {s s' : OutStream} {p : Connection τ} {f : Feed}

/-- A frame that later ones refer to has been dropped. -/
def Broken (s : OutStream) : Prop := (s.lastIDropped || s.lastPDropped) = true

/-- The piece begins a video frame. -/
def BeginsVideo (f : Feed) : Prop := f.isAudio = false ∧ f.processedLength = 0

instance (f : Feed) : Decidable (BeginsVideo f) := inferInstanceAs (Decidable (_ ∧ _))

/-! ## A piece -/

@[simp] theorem setTrack_lastDropped (s : OutStream) (b : Bool) (t : Track) :
    (s.setTrack b t).lastIDropped = s.lastIDropped ∧ (s.setTrack b t).lastPDropped = s.lastPDropped := by
  cases b <;> exact ⟨rfl, rfl⟩

theorem broken_setTrack (s : OutStream) (b : Bool) (t : Track) : Broken (s.setTrack b t) ↔ Broken s := by
  rw [Broken, Broken, (setTrack_lastDropped s b t).1, (setTrack_lastDropped s b t).2]

/-- What a new video frame of this level does to `Broken`. -/
theorem allowExecution2_broken (s : OutStream) (blocked level : Nat) :
    let r := s.allowExecution2 0 blocked false level
    (r.2 = true → Broken s → s.canDropFrames = true → level ≤ 1) ∧
      (r.2 = false → Broken s ∨ level = 1 ∨ level = 2 → Broken r.1) := by
  simp only [allowExecution2, ne_eq, not_true_eq_false, decide_false, Bool.and_false, Bool.false_eq_true, if_false]
  split
  · rename_i hc
    refine ⟨fun _ _ h => ?_, fun h => ?_⟩
    · rw [h] at hc
      cases hc
    · cases h
  · split
    · rename_i hb
      rw [Bool.and_eq_true] at hb
      exact ⟨fun h => Bool.noConfusion h, fun _ _ => (broken_setTrack ..).mpr hb.1⟩
    · rename_i hb
      have hlevel : Broken s → level ≤ 1 := fun h => by
        rw [Bool.and_eq_true, not_and, decide_eq_true_eq] at hb
        exact Nat.le_of_not_lt (hb h)
      split
      · refine ⟨?_, fun _ h => ?_⟩
        · intro h
          split at h
          · cases h
          · split at h <;> cases h
        · by_cases h₁ : level = 1
          · rw [if_pos h₁]
            exact (broken_setTrack ..).mpr rfl
          · rw [if_neg h₁]
            by_cases h₂ : level = 2
            · rw [if_pos h₂]
              exact (broken_setTrack ..).mpr (Bool.or_true _)
            · rw [if_neg h₂]
              exact (broken_setTrack ..).mpr (h.resolve_right (not_or.mpr ⟨h₁, h₂⟩))
      · exact ⟨fun _ h _ => hlevel h, fun h => Bool.noConfusion h⟩

/-- The other pieces leave it as it is. -/
theorem allowExecution2_goes_on {n : Nat} (hn : n ≠ 0) (s : OutStream) (blocked level : Nat) (b : Bool) :
    (s.allowExecution2 n blocked b level).1 = s := by
  rcases allowExecution2_cases s n blocked b level with ⟨-, e⟩ | ⟨-, -, e⟩ | ⟨-, h, -⟩ | ⟨-, h, -⟩
  · rw [e]
  · rw [e]
  · exact absurd h hn
  · exact absurd h hn

theorem allowExecution2_audio (s : OutStream) (n blocked : Nat) :
    Broken (s.allowExecution2 n blocked true 0).1 ↔ Broken s := by
  by_cases hn : n = 0
  · subst hn
    have h : ¬ 1 < 0 := by decide
    simp only [allowExecution2, ne_eq, not_true_eq_false, decide_false, Bool.and_false, Bool.false_eq_true, if_false, if_true, h]
    split
    · exact Iff.rfl
    · split
      · simp only [Nat.zero_ne_one, if_false, show ¬ 0 = 2 by decide]
        exact broken_setTrack ..
      · exact broken_setTrack ..
  · rw [allowExecution2_goes_on hn]

/-- What a piece has done to a stream whose first frame is behind. -/
structure Judged (s s' : OutStream) (f : Feed) (sent : Bool) : Prop where
  behind : s'.video.isFirst = false
  canDropFrames : s'.canDropFrames = s.canDropFrames
  paused : s'.paused = s.paused
  kept : ¬ BeginsVideo f → (Broken s' ↔ Broken s)
  passed : BeginsVideo f → sent = true → s.canDropFrames = true → Broken s → f.frameLevel ≤ 1
  dropped : BeginsVideo f → sent = false → s.canDropFrames = true ∧
    (Broken s ∨ f.frameLevel = 1 ∨ f.frameLevel = 2 → Broken s')

/-- Nothing of the video changes. -/
structure SameVideo (s s' : OutStream) : Prop where
  video : s'.video = s.video
  canDropFrames : s'.canDropFrames = s.canDropFrames
  paused : s'.paused = s.paused
  broken : Broken s' ↔ Broken s

theorem SameVideo.trans {s₁ s₂ s₃ : OutStream} (h : SameVideo s₁ s₂) (h' : SameVideo s₂ s₃) : SameVideo s₁ s₃ :=
  ⟨h'.video.trans h.video, h'.canDropFrames.trans h.canDropFrames, h'.paused.trans h.paused, h'.broken.trans h.broken⟩

theorem sameVideo_setTrack (s : OutStream) (t : Track) : SameVideo s (s.setTrack true t) := ⟨rfl, rfl, rfl, Iff.rfl⟩

theorem sameVideo_deltaTime (s : OutStream) (b : Bool) (d : Int) (c : Prop) [Decidable c] :
    SameVideo s (if c then s.setDeltaTime b d else s) := by
  split
  · rw [setDeltaTime]
    split <;> exact ⟨rfl, rfl, rfl, Iff.rfl⟩
  · exact ⟨rfl, rfl, rfl, Iff.rfl⟩

theorem allowExecution2_sameVideo (s : OutStream) (n blocked : Nat) :
    SameVideo s (s.allowExecution2 n blocked true 0).1 := by
  have hb := allowExecution2_audio s n blocked
  rcases allowExecution2_cases s n blocked true 0 with ⟨-, e⟩ | ⟨-, -, e⟩ | ⟨-, -, i, p, e⟩ | ⟨-, -, i, p, e⟩
  all_goals
    rw [e] at hb ⊢
    exact ⟨rfl, rfl, rfl, hb⟩

/-- The audio does nothing to the video. -/
theorem feedAudio_sameVideo (s : OutStream) (f : Feed) (last : Int) : SameVideo s (s.feedAudio f last).1 := by
  rw [feedAudio]
  split
  · have h₁ := sameVideo_setTrack s { s.audio with currentFrameDropped := false }
    simp only
    generalize hs₁ : ({ s with audio := { s.audio with currentFrameDropped := false } } : OutStream) = s₁
    rw [show s.setTrack true { s.audio with currentFrameDropped := false } = s₁ from hs₁] at h₁
    have h₂ := h₁.trans (sameVideo_deltaTime s₁ true f.absoluteTimestamp (s₁.deltaTime true < 0))
    generalize (if s₁.deltaTime true < 0 then s₁.setDeltaTime true f.absoluteTimestamp else s₁) = s₂ at h₂ ⊢
    have h₃ := h₂.trans (sameVideo_deltaTime s₂ true f.absoluteTimestamp (f.absoluteTimestamp < s₂.deltaTime true))
    split
    · exact h₁
    · split
      · exact h₂
      · exact h₃.trans (sameVideo_setTrack _ _)
  · have h := allowExecution2_sameVideo s f.processedLength f.blockedBufferSize
    generalize s.allowExecution2 f.processedLength f.blockedBufferSize true 0 = r at h
    obtain ⟨s₁, allowed⟩ := r
    cases allowed with
    | true => exact h.trans (sameVideo_setTrack _ _)
    | false => exact h

/-- A stream whose first video frame is behind judges the piece. -/
theorem feedVideo_judged (h : s.video.isFirst = false) (hv : f.isAudio = false) (last : Int) :
    Judged s (s.feedVideo f last).1 f (s.feedVideo f last).2 := by
  obtain ⟨s₀, hs₀, h₀, hb₀, hc₀, hp₀, hl₀⟩ : ∃ s₀ : OutStream,
      (if f.processedLength = 0 then { s with lastFrameLevel := f.frameLevel } else s) = s₀ ∧ s₀.video = s.video ∧
        (Broken s₀ ↔ Broken s) ∧ s₀.canDropFrames = s.canDropFrames ∧ s₀.paused = s.paused ∧
        (f.processedLength = 0 → s₀.lastFrameLevel = f.frameLevel) := by
    refine ⟨_, rfl, ?_⟩
    split
    · exact ⟨rfl, Iff.rfl, rfl, rfl, fun _ => rfl⟩
    · rename_i hn
      exact ⟨rfl, Iff.rfl, rfl, rfl, fun e => absurd e hn⟩
  have hf : ¬ s₀.video.isFirst = true := by
    rw [h₀, h]
    decide
  rw [feedVideo, hs₀]
  simp only [if_neg hf]
  have hsame : (s₀.allowExecution2 f.processedLength f.blockedBufferSize false s₀.lastFrameLevel).1.video.isFirst = false ∧
      (s₀.allowExecution2 f.processedLength f.blockedBufferSize false s₀.lastFrameLevel).1.canDropFrames =
        s₀.canDropFrames ∧
      (s₀.allowExecution2 f.processedLength f.blockedBufferSize false s₀.lastFrameLevel).1.paused = s₀.paused ∧
      ((s₀.allowExecution2 f.processedLength f.blockedBufferSize false s₀.lastFrameLevel).2 = false →
        s₀.canDropFrames = true) := by
    have hf' := Bool.eq_false_iff.mpr hf
    rcases allowExecution2_cases s₀ f.processedLength f.blockedBufferSize false s₀.lastFrameLevel with
      ⟨hc, e⟩ | ⟨hc, -, e⟩ | ⟨hc, -, i, p, e⟩ | ⟨hc, -, i, p, e⟩
    · rw [e]
      exact ⟨hf', rfl, rfl, fun h => Bool.noConfusion h⟩
    · rw [e]
      exact ⟨hf', rfl, rfl, fun _ => hc⟩
    · rw [e]
      exact ⟨hf', rfl, rfl, fun _ => hc⟩
    · rw [e]
      exact ⟨hf', rfl, rfl, fun h => Bool.noConfusion h⟩
  have hkeep : ¬ BeginsVideo f →
      (s₀.allowExecution2 f.processedLength f.blockedBufferSize false s₀.lastFrameLevel).1 = s₀ := fun hn =>
    allowExecution2_goes_on (fun e => hn ⟨hv, e⟩) ..
  have hbegin : BeginsVideo f → s₀.lastFrameLevel = f.frameLevel ∧
      s₀.allowExecution2 f.processedLength f.blockedBufferSize false s₀.lastFrameLevel =
        s₀.allowExecution2 0 f.blockedBufferSize false f.frameLevel := fun hn => by
    rw [hn.2, hl₀ hn.2]
    exact ⟨rfl, rfl⟩
  obtain ⟨hpassed, hdropped⟩ := allowExecution2_broken s₀ f.blockedBufferSize f.frameLevel
  generalize s₀.allowExecution2 f.processedLength f.blockedBufferSize false s₀.lastFrameLevel = r at hsame hkeep hbegin ⊢
  obtain ⟨s₁, allowed⟩ := r
  obtain ⟨h₁, h₂, h₃, h₄⟩ := hsame
  have hbk : ¬ BeginsVideo f → (Broken s₁ ↔ Broken s) := fun hn => by
    rw [show s₁ = s₀ from hkeep hn]
    exact hb₀
  cases allowed with
  | true =>
    refine ⟨h₁, h₂.trans hc₀, h₃.trans hp₀, hbk, fun hn _ hc hb => ?_, fun _ h => Bool.noConfusion h⟩
    rw [← (hbegin hn).2] at hpassed
    exact hpassed rfl (hb₀.mpr hb) (hc₀.trans hc)
  | false =>
    refine ⟨h₁, h₂.trans hc₀, h₃.trans hp₀, hbk, fun _ h => Bool.noConfusion h, fun hn _ => ⟨hc₀.symm.trans (h₄ rfl), fun hb => ?_⟩⟩
    rw [← (hbegin hn).2] at hdropped
    exact hdropped rfl (hb.imp_left hb₀.mpr)

/-- Each piece that is fed is judged. -/
theorem feedData_judged {q : Connection τ} (h : s.video.isFirst = false) (hz : s.paused = false)
    (he : s.feedData p f = some (s', q)) :
    Judged s s' f (s.prepare f (p.channels (s.track f.isAudio).channel).lastOutAbsTs).2 := by
  have hj : ∀ last, Judged s (s.prepare f last).1 f (s.prepare f last).2 := by
    intro last
    rw [prepare]
    split
    · rename_i ha
      have hs := feedAudio_sameVideo s f last
      have hn : ¬ BeginsVideo f := fun hb => by
        rw [hb.1] at ha
        cases ha
      exact ⟨hs.video ▸ h, hs.canDropFrames, hs.paused, fun _ => hs.broken, fun hb => absurd hb hn, fun hb => absurd hb hn⟩
    · rename_i ha
      exact feedVideo_judged h (Bool.eq_false_iff.mpr ha) last
  have hj := hj (p.channels (s.track f.isAudio).channel).lastOutAbsTs
  rw [feedData, hz] at he
  simp only [Bool.false_eq_true, if_false] at he
  generalize s.prepare f (p.channels (s.track f.isAudio).channel).lastOutAbsTs = r at hj he
  obtain ⟨s₁, send⟩ := r
  cases send with
  | false =>
    cases he
    exact hj
  | true =>
    simp only [if_true] at he
    obtain ⟨⟨p₁, header, bucket⟩, -, e⟩ := Option.map_eq_some_iff.mp he
    cases e
    -- what is sent changes the header and the bucket
    have hb := broken_setTrack s₁ f.isAudio
    refine ⟨?_, ?_, ?_, fun hn => (hb _).trans (hj.kept hn), hj.passed, fun hn e => ⟨(hj.dropped hn e).1, fun hx =>
      (hb _).mpr ((hj.dropped hn e).2 hx)⟩⟩
    · cases f.isAudio
      · exact hj.behind
      · exact hj.behind
    · rw [setTrack_canDropFrames]
      exact hj.canDropFrames
    · rw [(setTrack_same ..).1.paused]
      exact hj.paused

/-! ## A run -/

/-- The video frames that begin in a run: the level of each, and whether it is
sent. The connection is the one at the time. -/
def begun : OutStream → List (Connection τ × Feed) → List (Nat × Bool)
  | _, [] => []
  | s, (p, f) :: run =>
    match s.feedData p f with
    | none => []
    | some (s', _) =>
      if BeginsVideo f then
        (f.frameLevel, (s.prepare f (p.channels (s.track f.isAudio).channel).lastOutAbsTs).2) :: begun s' run
      else begun s' run

/-- Where something is missing the next frame that refers to it is preceded by one that does not. -/
theorem broken_run (run : List (Connection τ × Feed)) :
    ∀ (s : OutStream) {mid post : List (Nat × Bool)} {l : Nat}, s.video.isFirst = false → s.paused = false →
      s.canDropFrames = true → Broken s → 1 < l → begun s run = mid ++ (l, true) :: post →
      ∃ m ≤ 1, (m, true) ∈ mid := by
  induction run with
  | nil =>
    intro s mid post l h hz hc hb hl he
    exact absurd he.symm (List.append_ne_nil_of_right_ne_nil _ (List.cons_ne_nil _ _))
  | cons x run ih =>
    intro s mid post l h hz hc hb hl he
    obtain ⟨p, f⟩ := x
    rw [begun] at he
    split at he
    · exact absurd he.symm (List.append_ne_nil_of_right_ne_nil _ (List.cons_ne_nil _ _))
    · rename_i s' q hs
      have hj := feedData_judged h hz hs
      have hz' := hj.paused.trans hz
      have hc' := hj.canDropFrames.trans hc
      split at he
      · rename_i hv
        generalize (s.prepare f (p.channels (s.track f.isAudio).channel).lastOutAbsTs).2 = sent at hj he
        match mid, sent, hj with
        | [], true, hj =>
          have hlevel := hj.passed hv rfl hc hb
          injection he with he
          injection he with he
          omega
        | [], false, hj =>
          injection he with he
          injection he with _ he
          cases he
        | y :: mid, true, hj =>
          injection he with he
          exact ⟨f.frameLevel, hj.passed hv rfl hc hb, he ▸ List.mem_cons_self⟩
        | y :: mid, false, hj =>
          injection he with _ he
          obtain ⟨m, hm, hmem⟩ := ih s' hj.behind hz' hc' ((hj.dropped hv rfl).2 (.inl hb)) hl he
          exact ⟨m, hm, List.mem_cons_of_mem _ hmem⟩
      · rename_i hv
        exact ih s' hj.behind hz' hc' ((hj.kept hv).mpr hb) hl he

/-- Once a frame of level 1 or 2 has been dropped, a frame of a level above 1 is
sent only behind one of a level of at most 1. -/
theorem references_sent (run : List (Connection τ × Feed)) :
    ∀ (s : OutStream) {pre mid post : List (Nat × Bool)} {k l : Nat}, s.video.isFirst = false → s.paused = false →
      begun s run = pre ++ (k, false) :: (mid ++ (l, true) :: post) → k = 1 ∨ k = 2 → 1 < l →
      ∃ m ≤ 1, (m, true) ∈ mid := by
  induction run with
  | nil =>
    intro s pre mid post k l h hz he hk hl
    exact absurd he.symm (List.append_ne_nil_of_right_ne_nil _ (List.cons_ne_nil _ _))
  | cons x run ih =>
    intro s pre mid post k l h hz he hk hl
    obtain ⟨p, f⟩ := x
    rw [begun] at he
    split at he
    · exact absurd he.symm (List.append_ne_nil_of_right_ne_nil _ (List.cons_ne_nil _ _))
    · rename_i s' q hs
      have hj := feedData_judged h hz hs
      have hz' := hj.paused.trans hz
      split at he
      · rename_i hv
        match pre with
        | y :: pre =>
          injection he with _ he
          exact ih s' hj.behind hz' he hk hl
        | [] =>
          -- the frame that is dropped
          injection he with he he'
          injection he with hlevel hsent
          obtain ⟨hc, hb⟩ := hj.dropped hv hsent
          rw [hlevel] at hb
          exact broken_run run s' hj.behind hz' (hj.canDropFrames.trans hc) (hb (.inr hk)) hl he'
      · exact ih s' hj.behind hz' he hk hl

/-- A video frame of this level while `blocked` bytes are waiting to be sent. -/
def oneFrame (level blocked : Nat) : Connection Unit × Feed :=
  (Connection.initial (), ⟨[0x27], 0, 1, 40, false, level, blocked⟩)

def droppingStream : OutStream := { idleStream false with canDropFrames := true }

theorem references_sent_fourFrames :
    begun droppingStream [oneFrame 2 110000, oneFrame 3 0, oneFrame 1 0, oneFrame 2 0] =
      [(2, false), (3, false), (1, true), (2, true)] ∧ ∃ m ≤ 1, (m, true) ∈ [(3, false), (1, true)] :=
  have h : begun droppingStream [oneFrame 2 110000, oneFrame 3 0, oneFrame 1 0, oneFrame 2 0] =
      [] ++ (2, false) :: ([(3, false), (1, true)] ++ (2, true) :: []) := by decide
  ⟨h, references_sent _ _ rfl rfl h (.inr rfl) (by decide)⟩

end XH.Proof.Live
