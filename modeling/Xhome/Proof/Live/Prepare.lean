import Xhome.Impl.Live.OutStream

/-!
# Which pieces of a frame are let through

`FeedData` looks at the first piece of a frame and decides; the other pieces
follow it. `prepared` lists what it may decide, and `LetThrough` and `LeftOut`
say what follows for the track. `Skips` is what the stream keeps of the decision:
it still waits for its first frame, or it has dropped the one under way.
-/

namespace XH.Proof.Live

open Impl.Live Impl.Live.OutStream

variable {s : OutStream} {f : Feed} {last : Int} {b : Bool}

@[simp] theorem setTrack_track (s : OutStream) (b : Bool) (t : Track) : (s.setTrack b t).track b = t := by
  cases b <;> rfl

@[simp] theorem setTrack_track_not (s : OutStream) (b : Bool) (t : Track) : (s.setTrack b t).track (!b) = s.track (!b) := by
  cases b <;> rfl

@[simp] theorem setTrack_canDropFrames (s : OutStream) (b : Bool) (t : Track) :
    (s.setTrack b t).canDropFrames = s.canDropFrames := by
  cases b <;> rfl

/-- The frame of this kind that is under way is not sent. -/
def Skips (s : OutStream) (b : Bool) : Prop := (s.track b).isFirst = true ∨ (s.track b).currentFrameDropped = true

/-- Frames are dropped only where they may be. -/
def DropsAllowed (s : OutStream) : Prop := ∀ b, (s.track b).currentFrameDropped = true → s.canDropFrames = true

/-- What a step leaves as it is in a stream. -/
structure SameStream (s s' : OutStream) : Prop where
  chunkSize : s'.chunkSize = s.chunkSize
  feederChunkSize : s'.feederChunkSize = s.feederChunkSize
  canDropFrames : s'.canDropFrames = s.canDropFrames
  paused : s'.paused = s.paused
  sameTimeBase : s'.sameTimeBase = s.sameTimeBase
  seekTime : s'.seekTime = s.seekTime

theorem SameStream.refl (s : OutStream) : SameStream s s := ⟨rfl, rfl, rfl, rfl, rfl, rfl⟩

/-! ## `AllowExecution2` -/

def withLastDropped (s : OutStream) (lastIDropped lastPDropped : Bool) : OutStream :=
  { s with lastIDropped := lastIDropped, lastPDropped := lastPDropped }

/-- The four things that `AllowExecution2` can do. -/
theorem allowExecution2_cases (s : OutStream) (n blocked : Nat) (b : Bool) (level : Nat) :
    (s.canDropFrames = false ∧ s.allowExecution2 n blocked b level = (s, true)) ∨
    (s.canDropFrames = true ∧ n ≠ 0 ∧
      s.allowExecution2 n blocked b level = (s, !(s.track b).currentFrameDropped)) ∨
    (s.canDropFrames = true ∧ n = 0 ∧ ∃ i p, s.allowExecution2 n blocked b level =
      ((withLastDropped s i p).setTrack b
        { s.track b with currentFrameDropped := true }, false)) ∨
    (s.canDropFrames = true ∧ n = 0 ∧ ∃ i p, s.allowExecution2 n blocked b level =
      ((withLastDropped s i p).setTrack b
        { s.track b with currentFrameDropped := false }, true)) := by
  by_cases hc : s.canDropFrames = true
  · refine .inr ?_
    have hnc : (!s.canDropFrames) = false := by rw [hc]; rfl
    by_cases hn : n = 0
    · subst hn
      refine .inr ?_
      simp only [hc, true_and]
      simp only [allowExecution2, hnc, Bool.false_eq_true, if_false, ne_eq, not_true_eq_false, decide_false,
        Bool.and_false]
      split
      · exact .inl ⟨s.lastIDropped, s.lastPDropped, rfl⟩
      · split
        · split
          · exact .inl ⟨true, s.lastPDropped, rfl⟩
          · split
            · exact .inl ⟨s.lastIDropped, true, rfl⟩
            · exact .inl ⟨s.lastIDropped, s.lastPDropped, rfl⟩
        · refine .inr ?_
          cases b with
          | true => exact ⟨s.lastIDropped, s.lastPDropped, rfl⟩
          | false => exact ⟨false, false, rfl⟩
    · refine .inl ⟨hc, hn, ?_⟩
      simp only [allowExecution2, hnc, Bool.false_eq_true, if_false, ne_eq, hn, not_false_eq_true, decide_true,
        Bool.and_true, if_true]
      split
      · rename_i h
        rw [h]
        rfl
      · rename_i h
        rw [Bool.eq_false_iff.mpr h]
        rfl
  · have hnc : (!s.canDropFrames) = true := by rw [Bool.eq_false_iff.mpr hc]; rfl
    refine .inl ⟨Bool.eq_false_iff.mpr hc, ?_⟩
    simp only [allowExecution2, hnc, if_true]

/-! ## A piece -/

/-- `isAudioSetup` or `isVideoSetup`. -/
def isSetup (f : Feed) : Bool := if f.isAudio then f.isAudioSetup else f.isVideoSetup

/-- What becomes of the piece `f` of a track. -/
inductive Verdict (s : OutStream) (f : Feed) (last : Int) (t : Track) : OutStream × Bool → Track → Prop where
  /-- The stream waits for its first frame, and this is not the start of one. -/
  | waits (s' : OutStream) (h : t.isFirst = true) :
    Verdict s f last t (s', false) { t with currentFrameDropped := false }
  /-- The first frame, or what sets a codec up. -/
  | starts (s' : OutStream) (time : BitVec 32) (h : t.isFirst = true) (h₀ : f.processedLength = 0)
      (hne : f.data ≠ []) :
    Verdict s f last t (s', true)
      { t with
        currentFrameDropped := false
        isFirst := isSetup f
        header := { t.header with isAbsolute := true, hf := { t.header.hf with ts := time } } }
  | drops (s' : OutStream) (h : t.isFirst = false) (hc : s.canDropFrames = true)
      (h₀ : f.processedLength ≠ 0 → t.currentFrameDropped = true)
      (hd : s'.deltaAudioTime = s.deltaAudioTime ∧ s'.deltaVideoTime = s.deltaVideoTime) :
    Verdict s f last t (s', false) { t with currentFrameDropped := true }
  | passes (s' : OutStream) (h : t.isFirst = false) (h₀ : f.processedLength ≠ 0 → t.currentFrameDropped = false)
      (hd : s'.deltaAudioTime = s.deltaAudioTime ∧ s'.deltaVideoTime = s.deltaVideoTime) :
    Verdict s f last t (s', true) { t with currentFrameDropped := false, header := s.relativeHeader f last }

/-- `prepare` gives each piece its verdict, and leaves everything else as it is. -/
structure Prepared (s : OutStream) (f : Feed) (last : Int) : Prop where
  stream : SameStream s (s.prepare f last).1
  other : (s.prepare f last).1.track (!f.isAudio) = s.track (!f.isAudio)
  verdict : Verdict s f last (s.track f.isAudio) (s.prepare f last) ((s.prepare f last).1.track f.isAudio)

theorem setDeltaTime_same (s : OutStream) (b : Bool) (d : Int) :
    SameStream s (s.setDeltaTime b d) ∧ ∀ b', (s.setDeltaTime b d).track b' = s.track b' := by
  rw [setDeltaTime]
  split
  · exact ⟨⟨rfl, rfl, rfl, rfl, rfl, rfl⟩, fun b' => by cases b' <;> rfl⟩
  · exact ⟨⟨rfl, rfl, rfl, rfl, rfl, rfl⟩, fun b' => by cases b' <;> rfl⟩

theorem SameStream.trans {s s' s'' : OutStream} (h : SameStream s s') (h' : SameStream s' s'') : SameStream s s'' :=
  ⟨h'.chunkSize.trans h.chunkSize, h'.feederChunkSize.trans h.feederChunkSize,
    h'.canDropFrames.trans h.canDropFrames, h'.paused.trans h.paused, h'.sameTimeBase.trans h.sameTimeBase,
    h'.seekTime.trans h.seekTime⟩

theorem withDropped_self {t : Track} {d : Bool} (h : t.currentFrameDropped = d) :
    { t with currentFrameDropped := d } = t := by
  subst h
  rfl

theorem setTrack_same (s : OutStream) (b : Bool) (t : Track) :
    SameStream s (s.setTrack b t) ∧ (s.setTrack b t).deltaAudioTime = s.deltaAudioTime ∧
      (s.setTrack b t).deltaVideoTime = s.deltaVideoTime := by
  cases b <;> exact ⟨⟨rfl, rfl, rfl, rfl, rfl, rfl⟩, rfl, rfl⟩

@[simp] theorem setTrack_setTrack (s : OutStream) (b : Bool) (t t' : Track) :
    (s.setTrack b t).setTrack b t' = s.setTrack b t' := by
  cases b <;> rfl

/-- The two flags are not in a header that goes on from the time before it. -/
theorem relativeHeader_flags (s : OutStream) (f : Feed) (last : Int) (i p d : Bool) :
    ((withLastDropped s i p).setTrack f.isAudio { s.track f.isAudio with currentFrameDropped := d }).relativeHeader f
      last = s.relativeHeader f last := by
  cases hb : f.isAudio <;> simp only [relativeHeader, hb] <;> rfl

/-- A piece of a kind whose first frame has been sent. -/
theorem later_prepared (hd : DropsAllowed s) (last : Int) (level : Nat) (h : (s.track f.isAudio).isFirst = false) :
    let r := s.allowExecution2 f.processedLength f.blockedBufferSize f.isAudio level
    let t := if r.2 then { r.1.track f.isAudio with header := r.1.relativeHeader f last } else r.1.track f.isAudio
    SameStream s (r.1.setTrack f.isAudio t) ∧ (r.1.setTrack f.isAudio t).track (!f.isAudio) = s.track (!f.isAudio) ∧
      Verdict s f last (s.track f.isAudio) (r.1.setTrack f.isAudio t, r.2) t := by
  have hpass : (s.track f.isAudio).currentFrameDropped = false →
      SameStream s (s.setTrack f.isAudio { s.track f.isAudio with header := s.relativeHeader f last }) ∧
        (s.setTrack f.isAudio { s.track f.isAudio with header := s.relativeHeader f last }).track (!f.isAudio) =
          s.track (!f.isAudio) ∧
        Verdict s f last (s.track f.isAudio)
          (s.setTrack f.isAudio { s.track f.isAudio with header := s.relativeHeader f last }, true)
          { s.track f.isAudio with header := s.relativeHeader f last } := by
    intro hnd
    have ht : { s.track f.isAudio with header := s.relativeHeader f last } =
        { s.track f.isAudio with currentFrameDropped := false, header := s.relativeHeader f last } := by
      rw [← hnd]
    obtain ⟨hs, hδ⟩ := setTrack_same s f.isAudio { s.track f.isAudio with header := s.relativeHeader f last }
    refine ⟨hs, setTrack_track_not .., ?_⟩
    rw [ht] at hδ ⊢
    exact .passes _ h (fun _ => hnd) hδ
  rcases allowExecution2_cases s f.processedLength f.blockedBufferSize f.isAudio level with
    ⟨hc, e⟩ | ⟨hc, hn, e⟩ | ⟨hc, hn, i, p, e⟩ | ⟨hc, hn, i, p, e⟩
  · have hnd : (s.track f.isAudio).currentFrameDropped = false := by
      refine Bool.eq_false_iff.mpr fun h' => ?_
      rw [hd _ h'] at hc
      cases hc
    rw [e]
    exact hpass hnd
  · rw [e]
    cases hnd : (s.track f.isAudio).currentFrameDropped with
    | false => exact hpass hnd
    | true =>
      have ht : { s.track f.isAudio with currentFrameDropped := true } = s.track f.isAudio := withDropped_self hnd
      obtain ⟨hs, hδ⟩ := setTrack_same s f.isAudio (s.track f.isAudio)
      refine ⟨hs, setTrack_track_not .., ?_⟩
      have v : Verdict s f last (s.track f.isAudio) (s.setTrack f.isAudio (s.track f.isAudio), false)
          { s.track f.isAudio with currentFrameDropped := true } := .drops _ h hc (fun _ => hnd) hδ
      rw [ht] at v
      exact v
  · rw [e]
    simp only [Bool.false_eq_true, if_false, setTrack_track, setTrack_setTrack]
    obtain ⟨hs, hδ⟩ := setTrack_same (withLastDropped s i p) f.isAudio
      { s.track f.isAudio with currentFrameDropped := true }
    exact ⟨⟨hs.1, hs.2, hs.3, hs.4, hs.5, hs.6⟩, setTrack_track_not .., .drops _ h hc (fun e => absurd hn e) hδ⟩
  · rw [e]
    simp only [if_true, setTrack_track, setTrack_setTrack, relativeHeader_flags]
    obtain ⟨hs, hδ⟩ := setTrack_same (withLastDropped s i p) f.isAudio
      { s.track f.isAudio with currentFrameDropped := false, header := s.relativeHeader f last }
    exact ⟨⟨hs.1, hs.2, hs.3, hs.4, hs.5, hs.6⟩, setTrack_track_not .., .passes _ h (fun e => absurd hn e) hδ⟩

theorem setDeltaTime_if (s : OutStream) (b : Bool) (d : Int) (c : Prop) [Decidable c] :
    SameStream s (if c then s.setDeltaTime b d else s) ∧
      ∀ b', (if c then s.setDeltaTime b d else s).track b' = s.track b' := by
  split
  · exact setDeltaTime_same s b d
  · exact ⟨.refl s, fun _ => rfl⟩

/-- The track of a frame that begins, once its header says the time. -/
theorem absoluteHeader_eq (s : OutStream) (f : Feed) :
    ∃ time, s.absoluteHeader f =
      { (s.track f.isAudio).header with
        isAbsolute := true, hf := { (s.track f.isAudio).header.hf with ts := time } } :=
  ⟨_, rfl⟩

theorem Prepared.of_eq {r : OutStream × Bool} (e : s.prepare f last = r) (hs : SameStream s r.1)
    (ho : r.1.track (!f.isAudio) = s.track (!f.isAudio))
    (hv : Verdict s f last (s.track f.isAudio) r (r.1.track f.isAudio)) : Prepared s f last := by
  subst e
  exact ⟨hs, ho, hv⟩

/-- A first piece that is not sent. -/
theorem Prepared.of_waits {s' : OutStream} (h : (s.track f.isAudio).isFirst = true)
    (e : s.prepare f last = (s', false)) (hs : SameStream s s') (ho : s'.track (!f.isAudio) = s.track (!f.isAudio))
    (ht : s'.track f.isAudio = { s.track f.isAudio with currentFrameDropped := false }) : Prepared s f last := by
  refine .of_eq e hs ho ?_
  rw [ht]
  exact .waits s' h

theorem Prepared.of_starts {s' : OutStream} (time : BitVec 32) (h : (s.track f.isAudio).isFirst = true)
    (h₀ : f.processedLength = 0) (hne : f.data ≠ []) (e : s.prepare f last = (s', true)) (hs : SameStream s s')
    (ho : s'.track (!f.isAudio) = s.track (!f.isAudio))
    (ht : s'.track f.isAudio =
      { s.track f.isAudio with
        currentFrameDropped := false
        isFirst := isSetup f
        header := { (s.track f.isAudio).header with
          isAbsolute := true, hf := { (s.track f.isAudio).header.hf with ts := time } } }) : Prepared s f last := by
  refine .of_eq e hs ho ?_
  rw [ht]
  exact .starts s' time h h₀ hne

theorem prepare_audio (hd : DropsAllowed s) (hb : f.isAudio = true) (last : Int) : Prepared s f last := by
  have hp : s.prepare f last = s.feedAudio f last := by rw [prepare, if_pos hb]
  by_cases h : s.audio.isFirst = true
  · have h' : (s.track f.isAudio).isFirst = true := by rw [hb]; exact h
    rw [feedAudio, if_pos h] at hp
    simp only at hp
    generalize hs₁ : ({ s with audio := { s.audio with currentFrameDropped := false } } : OutStream) = s₁ at hp
    have h₁ : SameStream s s₁ := hs₁ ▸ ⟨rfl, rfl, rfl, rfl, rfl, rfl⟩
    have ha₁ : s₁.track true = { s.audio with currentFrameDropped := false } := by rw [← hs₁]; rfl
    have hv₁ : s₁.track false = s.video := by rw [← hs₁]; rfl
    obtain ⟨h₂, ht₂⟩ := setDeltaTime_if s₁ true f.absoluteTimestamp (s₁.deltaTime true < 0)
    generalize (if s₁.deltaTime true < 0 then s₁.setDeltaTime true f.absoluteTimestamp else s₁) = s₂ at hp h₂ ht₂
    obtain ⟨h₃, ht₃⟩ := setDeltaTime_if s₂ true f.absoluteTimestamp (f.absoluteTimestamp < s₂.deltaTime true)
    generalize (if f.absoluteTimestamp < s₂.deltaTime true then s₂.setDeltaTime true f.absoluteTimestamp else s₂) = s₃
      at hp h₃ ht₃
    split at hp
    · refine .of_waits h' hp h₁ ?_ ?_
      · rw [hb]
        exact hv₁
      · rw [hb]
        exact ha₁
    · rename_i hc
      simp only [Bool.or_eq_true, decide_eq_true_eq, not_or, ne_eq, not_not] at hc
      split at hp
      · refine .of_waits h' hp (h₁.trans h₂) ?_ ?_
        · rw [hb]
          exact (ht₂ false).trans hv₁
        · rw [hb]
          exact (ht₂ true).trans ha₁
      · obtain ⟨time, he⟩ := absoluteHeader_eq s₃ f
        have ha₃ : s₃.track true = { s.audio with currentFrameDropped := false } :=
          (ht₃ true).trans ((ht₂ true).trans ha₁)
        have hset : isSetup f = f.isAudioSetup := by rw [isSetup, if_pos hb]
        refine .of_starts time h' hc.2 (List.ne_nil_of_length_pos (Nat.pos_of_ne_zero hc.1)) hp
          (((h₁.trans h₂).trans h₃).trans ⟨rfl, rfl, rfl, rfl, rfl, rfl⟩) ?_ ?_
        · rw [hb]
          exact (ht₃ false).trans ((ht₂ false).trans hv₁)
        · rw [hb, ha₃] at he
          rw [hset, hb]
          show { s₃.track true with header := s₃.absoluteHeader f, isFirst := f.isAudioSetup } = _
          rw [he, ha₃]
          rfl
  · have h' : (s.track f.isAudio).isFirst = false := by
      rw [hb]
      exact Bool.eq_false_iff.mpr h
    obtain ⟨hs, ho, hv⟩ := later_prepared hd last 0 h'
    refine .of_eq (?_ : _ = ((s.allowExecution2 f.processedLength f.blockedBufferSize f.isAudio 0).1.setTrack f.isAudio
      (if (s.allowExecution2 f.processedLength f.blockedBufferSize f.isAudio 0).2 then
        { (s.allowExecution2 f.processedLength f.blockedBufferSize f.isAudio 0).1.track f.isAudio with
          header := (s.allowExecution2 f.processedLength f.blockedBufferSize f.isAudio 0).1.relativeHeader f last }
      else (s.allowExecution2 f.processedLength f.blockedBufferSize f.isAudio 0).1.track f.isAudio),
      (s.allowExecution2 f.processedLength f.blockedBufferSize f.isAudio 0).2)) hs ho ?_
    · rw [hp, feedAudio, if_neg h, hb]
      generalize s.allowExecution2 f.processedLength f.blockedBufferSize true 0 = r
      obtain ⟨s₁, allowed⟩ := r
      cases allowed <;> rfl
    · rw [setTrack_track]
      exact hv

theorem Verdict.of_level {n : Nat} {t t' : Track} {r : OutStream × Bool}
    (hv : Verdict { s with lastFrameLevel := n } f last t r t') : Verdict s f last t r t' := by
  cases hv with
  | waits s' h => exact .waits s' h
  | starts s' time h h₀ hne => exact .starts s' time h h₀ hne
  | drops s' h hc h₀ hδ => exact .drops s' h hc h₀ hδ
  | passes s' h h₀ hδ => exact .passes s' h h₀ hδ

theorem prepare_video (hd : DropsAllowed s) (hb : f.isAudio = false) (last : Int) : Prepared s f last := by
  have hp : s.prepare f last = s.feedVideo f last := by rw [prepare, hb]; rfl
  rw [feedVideo] at hp
  generalize hs₀ : (if f.processedLength = 0 then { s with lastFrameLevel := f.frameLevel } else s : OutStream) = s₀ at hp
  have h₀ : SameStream s s₀ := by
    subst hs₀
    split
    · exact ⟨rfl, rfl, rfl, rfl, rfl, rfl⟩
    · exact .refl s
  have ht₀ : ∀ b, s₀.track b = s.track b := by
    subst hs₀
    intro b
    split
    · cases b <;> rfl
    · rfl
  by_cases h : s₀.video.isFirst = true
  · have h' : (s.track f.isAudio).isFirst = true := by
      rw [hb, ← ht₀]
      exact h
    simp only [if_pos h] at hp
    generalize hs₁ : ({ s₀ with
      video := { s₀.video with currentFrameDropped := false }, lastIDropped := false, lastPDropped := false } :
        OutStream) = s₁ at hp
    have h₁ : SameStream s s₁ := hs₁ ▸ ⟨h₀.1, h₀.2, h₀.3, h₀.4, h₀.5, h₀.6⟩
    have hv₁ : s₁.track false = { s.track false with currentFrameDropped := false } := by
      rw [← hs₁, ← ht₀]
      rfl
    have ha₁ : s₁.track true = s.track true := by
      rw [← hs₁, ← ht₀]
      rfl
    obtain ⟨h₂, ht₂⟩ := setDeltaTime_if s₁ false f.absoluteTimestamp (s₁.deltaTime false < 0)
    generalize (if s₁.deltaTime false < 0 then s₁.setDeltaTime false f.absoluteTimestamp else s₁) = s₂ at hp h₂ ht₂
    split at hp
    · refine .of_waits h' hp h₁ ?_ ?_
      · rw [hb]
        exact ha₁
      · rw [hb]
        exact hv₁
    · rename_i hc
      simp only [Bool.or_eq_true, decide_eq_true_eq, not_or, ne_eq, not_not] at hc
      split at hp
      · refine .of_waits h' hp (h₁.trans h₂) ?_ ?_
        · rw [hb]
          exact (ht₂ true).trans ha₁
        · rw [hb]
          exact (ht₂ false).trans hv₁
      · obtain ⟨time, he⟩ := absoluteHeader_eq s₂ f
        have hv₂ := (ht₂ false).trans hv₁
        have hset : isSetup f = f.isVideoSetup := by rw [isSetup, hb]; rfl
        refine .of_starts time h' hc.1.2 (List.ne_nil_of_length_pos (Nat.pos_of_ne_zero hc.1.1)) hp
          ((h₁.trans h₂).trans ⟨rfl, rfl, rfl, rfl, rfl, rfl⟩) ?_ ?_
        · rw [hb]
          exact (ht₂ true).trans ha₁
        · rw [hb, hv₂] at he
          rw [hset, hb]
          show { s₂.track false with header := s₂.absoluteHeader f, isFirst := f.isVideoSetup } = _
          rw [he, hv₂]
  · have h' : (s₀.track f.isAudio).isFirst = false := by
      rw [hb]
      exact Bool.eq_false_iff.mpr h
    have hd₀ : DropsAllowed s₀ := fun b e => by rw [h₀.canDropFrames]; exact hd b (ht₀ b ▸ e)
    obtain ⟨hs, ho, hv⟩ := later_prepared hd₀ last s₀.lastFrameLevel h'
    have he : s.prepare f last =
        ((s₀.allowExecution2 f.processedLength f.blockedBufferSize f.isAudio s₀.lastFrameLevel).1.setTrack f.isAudio
          (if (s₀.allowExecution2 f.processedLength f.blockedBufferSize f.isAudio s₀.lastFrameLevel).2 then
            { (s₀.allowExecution2 f.processedLength f.blockedBufferSize f.isAudio s₀.lastFrameLevel).1.track f.isAudio with
              header := (s₀.allowExecution2 f.processedLength f.blockedBufferSize f.isAudio
                s₀.lastFrameLevel).1.relativeHeader f last }
          else (s₀.allowExecution2 f.processedLength f.blockedBufferSize f.isAudio s₀.lastFrameLevel).1.track f.isAudio),
          (s₀.allowExecution2 f.processedLength f.blockedBufferSize f.isAudio s₀.lastFrameLevel).2) := by
      rw [hp, if_neg h, hb]
      generalize s₀.allowExecution2 f.processedLength f.blockedBufferSize false s₀.lastFrameLevel = r
      obtain ⟨s₁, allowed⟩ := r
      cases allowed <;> rfl
    refine .of_eq he (h₀.trans hs) (ho.trans (ht₀ _)) ?_
    rw [setTrack_track, ← ht₀]
    obtain ⟨n, hn⟩ : ∃ n, s₀ = { s with lastFrameLevel := n } := by
      subst hs₀
      split
      · exact ⟨_, rfl⟩
      · exact ⟨s.lastFrameLevel, rfl⟩
    rw [hn] at hv ⊢
    exact hv.of_level

/-- What `FeedData` does before `ChunkAndSend`. -/
theorem prepared (hd : DropsAllowed s) (f : Feed) (last : Int) : Prepared s f last := by
  cases hb : f.isAudio with
  | true => exact prepare_audio hd hb last
  | false => exact prepare_video hd hb last

/-! ## What follows for the track -/

/-- The track of a piece that is sent. -/
structure LetThrough (s s' : OutStream) (f : Feed) (last : Int) : Prop where
  bucket : (s'.track f.isAudio).bucket = (s.track f.isAudio).bucket
  channel : (s'.track f.isAudio).channel = (s.track f.isAudio).channel
  ci : (s'.track f.isAudio).header.ci = (s.track f.isAudio).header.ci
  mt : (s'.track f.isAudio).header.hf.mt = (s.track f.isAudio).header.hf.mt
  si : (s'.track f.isAudio).header.hf.si = (s.track f.isAudio).header.hf.si
  sends : (s'.track f.isAudio).currentFrameDropped = false
  goesOn : f.processedLength ≠ 0 →
    ¬ Skips s f.isAudio ∧ (s'.track f.isAudio).header.hf = (s.track f.isAudio).header.hf
  setup : (s'.track f.isAudio).isFirst = true → f.processedLength = 0 ∧ isSetup f = true
  behind : (s.track f.isAudio).isFirst = false → (s'.track f.isAudio).isFirst = false ∧
    (s'.track f.isAudio).header = s.relativeHeader f last ∧
    s'.deltaAudioTime = s.deltaAudioTime ∧ s'.deltaVideoTime = s.deltaVideoTime

/-- The track of a piece that is not sent. -/
structure LeftOut (s s' : OutStream) (f : Feed) : Prop where
  bucket : (s'.track f.isAudio).bucket = (s.track f.isAudio).bucket
  channel : (s'.track f.isAudio).channel = (s.track f.isAudio).channel
  header : (s'.track f.isAudio).header = (s.track f.isAudio).header
  skips : Skips s' f.isAudio
  goesOn : f.processedLength ≠ 0 → Skips s f.isAudio
  allowed : (s'.track f.isAudio).currentFrameDropped = true → s.canDropFrames = true
  isFirst : (s'.track f.isAudio).isFirst = (s.track f.isAudio).isFirst
  deltas : (s.track f.isAudio).isFirst = false →
    s'.deltaAudioTime = s.deltaAudioTime ∧ s'.deltaVideoTime = s.deltaVideoTime

theorem relativeHeader_kind (s : OutStream) (f : Feed) (last : Int) :
    (s.relativeHeader f last).ci = (s.track f.isAudio).header.ci ∧
      (s.relativeHeader f last).hf.mt = (s.track f.isAudio).header.hf.mt ∧
      (s.relativeHeader f last).hf.si = (s.track f.isAudio).header.hf.si := by
  refine ⟨rfl, ?_⟩
  simp only [relativeHeader]
  split <;> exact ⟨rfl, rfl⟩

theorem prepare_letThrough {s' : OutStream} (hd : DropsAllowed s) (he : s.prepare f last = (s', true)) :
    SameStream s s' ∧ s'.track (!f.isAudio) = s.track (!f.isAudio) ∧ LetThrough s s' f last := by
  obtain ⟨hst, hot, hv⟩ := prepared hd f last
  rw [he] at hst hot hv
  simp only at hst hot hv
  refine ⟨hst, hot, ?_⟩
  generalize ht : s'.track f.isAudio = t' at hv
  cases hv with
  | starts _ time h₀ hn hne =>
    refine ⟨by rw [ht], by rw [ht], by rw [ht], by rw [ht], by rw [ht], by rw [ht], fun e => absurd hn e, fun e => ⟨hn, ?_⟩,
      fun e => ?_⟩
    · rw [ht] at e
      exact e
    · rw [h₀] at e
      cases e
  | passes _ h₀ hn hδ =>
    obtain ⟨hci, hmt, hsi⟩ := relativeHeader_kind s f last
    refine ⟨by rw [ht], by rw [ht], by rw [ht]; exact hci, by rw [ht]; exact hmt, by rw [ht]; exact hsi, by rw [ht],
      fun e => ⟨?_, ?_⟩, fun e => ?_, fun _ => ⟨?_, by rw [ht], hδ⟩⟩
    · rintro (e' | e')
      · rw [h₀] at e'
        cases e'
      · rw [hn e] at e'
        cases e'
    · rw [ht]
      simp only [relativeHeader, if_neg e]
    · rw [ht] at e
      rw [h₀] at e
      cases e
    · rw [ht]
      exact h₀

theorem prepare_leftOut {s' : OutStream} (hd : DropsAllowed s) (he : s.prepare f last = (s', false)) :
    SameStream s s' ∧ s'.track (!f.isAudio) = s.track (!f.isAudio) ∧ LeftOut s s' f := by
  obtain ⟨hst, hot, hv⟩ := prepared hd f last
  rw [he] at hst hot hv
  simp only at hst hot hv
  refine ⟨hst, hot, ?_⟩
  generalize ht : s'.track f.isAudio = t' at hv
  cases hv with
  | waits _ h₀ =>
    refine ⟨by rw [ht], by rw [ht], by rw [ht], .inl (by rw [ht]; exact h₀), fun _ => .inl h₀, fun e => ?_, by rw [ht],
      fun e => ?_⟩
    · rw [ht] at e
      cases e
    · rw [h₀] at e
      cases e
  | drops _ h₀ hc hn hδ =>
    exact ⟨by rw [ht], by rw [ht], by rw [ht], .inr (by rw [ht]), fun e => .inr (hn e), fun _ => hc, by rw [ht], fun _ => hδ⟩

end XH.Proof.Live
