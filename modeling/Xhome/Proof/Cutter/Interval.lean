import Xhome.Impl.Cutter.Main
import Xhome.Proof.Cutter.Outstanding
import Xhome.Proof.Cutter.PlainCuts
import Xhome.Proof.Cutter.Rules

/-!
# The interval of the command line

`_tmain` takes any number but 0 as the interval. The members it is copied into keep
their values (`Scaled`), and with an interval below `2^31` the padding and fill
loops end from any state, however the clock goes (`padLoop_ends`,
`fillLoop_ends`): each round takes the next id a slot further round the 32-bit
circle, and within the last slot before `2^31` no clock is a slot ahead of it.
So all that bounds the interval is `cut_scale_`, which is in milliseconds
(`safe_interval_iff`).
-/

namespace XH.Proof.Cutter

open XH.Impl.Cutter

variable {env : Env}

/-! ## The loops -/

/-- How far the next id is from `2^31`, on the circle of the 32-bit values. -/
def toTop (w : Writer) : Nat := sub32 (2 ^ 31) w.currentPieceId

/-- In the last slot before `2^31` no clock is a slot ahead. -/
theorem not_behind_of_top {w : Writer} {now : Nat} (h₀ : 0 < w.pieceScale) (h₁ : w.pieceScale < 2 ^ 31) (hn : now < 2 ^ 31)
    (hd : toTop w ≤ w.pieceScale) : ¬ w.slotsBehind now > 0 := by
  have hdiff : sub32 now w.currentPieceId % 2 ^ 32 < w.pieceScale ∨ 2 ^ 31 ≤ sub32 now w.currentPieceId % 2 ^ 32 := by
    simp only [toTop, sub32] at hd ⊢
    omega
  rw [Writer.slotsBehind, i32_of_lt h₁, gt_iff_lt, tdiv_pos_iff (by omega), i32]
  rcases hdiff with h | h
  · rw [if_pos (by omega)]
    omega
  · rw [if_neg (by omega)]
    omega

/-- A special piece is written into the next slot, unless its first attempt fails. -/
theorem writeOneSpecialPiece_step (fuel : Nat) {ty : Nat} (hty : ty ≤ 1) (s : World) :
    (∃ t, writeOneSpecialPiece env (fuel + 1) ty s = .ret () t ∧ t.fs.attempts = s.fs.attempts + 1 ∧
      t.w.pieceScale = s.w.pieceScale ∧ t.w.currentPieceId = u32 (s.w.currentPieceId + s.w.pieceScale)) ∨
    env.faults s.fs.attempts ≠ .none := by
  by_cases hF : Fails env s
  · exact .inr hF.1
  · obtain ⟨t, ht, hw⟩ := writeBlock_ret env fuel (.special ty) (specialData s.w ty) (u32 (Piece.size (specialData s.w ty)))
      (env.removedSize s.fs.attempts) (s := specialStart ty s) hF
    rw [← writeOneSpecialPiece_eq env _ hty] at ht
    exact .inl ⟨t, ht, hw.attempts, by rw [hw.w]; rfl, by rw [hw.w]; rfl⟩

/-- The loop returns, or one of the next `n` attempts to write a file fails. -/
def Ends (env : Env) (s : World) (n : Nat) (r : Res World Unit) : Prop :=
  (∃ t, r = .ret () t) ∨ ∃ i < n, env.faults (s.fs.attempts + i) ≠ .none

/-- The attempts behind the first one. -/
theorem Ends.later {s t : World} {n : Nat} {r : Res World Unit} (h : Ends env t n r) (ha : t.fs.attempts = s.fs.attempts + 1) :
    Ends env s (n + 1) r := by
  rcases h with h | ⟨i, hi, hf⟩
  · exact .inl h
  · refine .inr ⟨i + 1, Nat.succ_lt_succ hi, ?_⟩
    rw [ha, Nat.add_assoc, Nat.add_comm 1 i] at hf
    exact hf

section
variable {s : World} {S : Nat} (h₀ : 0 < S) (h₁ : S < 2 ^ 31)
include h₀ h₁

/-- Behind a slot that is missing the next id is nearer to `2^31`. -/
theorem toTop_step {w w' : Writer} {now : Nat} (hS : w.pieceScale = S) (hn : now < 2 ^ 31) (hb : w.slotsBehind now > 0)
    (hid : w'.currentPieceId = u32 (w.currentPieceId + w.pieceScale)) : toTop w' < toTop w := by
  subst hS
  have hfar : ¬ toTop w ≤ w.pieceScale := fun h => not_behind_of_top h₀ h₁ hn h hb
  simp only [toTop, hid] at hfar ⊢
  simp only [sub32, u32] at hfar ⊢
  omega

theorem padLoop_ends (hc : ∀ n, env.utc n < 2 ^ 31) {ty : Nat} (hty : ty ≤ 1) :
    ∀ (n : Nat) {s : World}, s.w.pieceScale = S → toTop s.w < n → Ends env s n (padLoop env ty n s)
  | 0, _, _, h => absurd h (Nat.not_lt_zero _)
  | n + 1, s, hS, h => by
    rw [padLoop, Prog.bind_ret (getUTC_apply env s), Prog.bind_ret (Prog.get_apply _)]
    split
    · rename_i hb
      rcases writeOneSpecialPiece_step n hty (ticked s) with ⟨t, ht, ha, hs, hid⟩ | hf
      · rw [Prog.bind_ret ht]
        have hd : toTop t.w < toTop s.w := toTop_step h₀ h₁ hS (hc _) hb hid
        exact (padLoop_ends hc hty n (hs.trans hS) (by omega)).later ha
      · exact .inr ⟨0, Nat.succ_pos n, hf⟩
    · exact .inl ⟨_, rfl⟩

theorem fillLoop_ends {nowId : Nat} (hc : nowId < 2 ^ 31) :
    ∀ (n : Nat) {s : World}, s.w.pieceScale = S → toTop s.w < n → Ends env s n (fillLoop env nowId n s)
  | 0, _, _, h => absurd h (Nat.not_lt_zero _)
  | n + 1, s, hS, h => by
    rw [fillLoop, Prog.bind_ret (Prog.get_apply _)]
    split
    · rename_i hb
      rcases writeOneSpecialPiece_step n (Nat.zero_le 1) s with ⟨t, ht, ha, hs, hid⟩ | hf
      · rw [Prog.bind_ret ht]
        have hd : toTop t.w < toTop s.w := toTop_step h₀ h₁ hS hc hb.2 hid
        exact (fillLoop_ends hc n (hs.trans hS) (by omega)).later ha
      · exact .inr ⟨0, Nat.succ_pos n, hf⟩
    · exact .inl ⟨_, rfl⟩

end

/-! ## The members -/

/-- The members of the writer that the interval is copied into. -/
structure Scaled (S : Nat) (s : World) : Prop where
  pieceScale : s.w.pieceScale = S
  checkpointScale : s.w.checkpointScale = S

/-- What the constructor copies from its arguments and nothing changes. -/
def settingsOf (w : Writer) : Nat × Nat × Nat := (w.pieceScale, w.checkpointScale, w.pieceLifeSpan)

def settings (s : World) : Nat × Nat × Nat := settingsOf s.w

theorem Scaled.of_settings {S life : Nat} {s : World} (h : settings s = (S, S, life)) : Scaled S s :=
  ⟨congrArg (·.1) h, congrArg (·.2.1) h⟩

theorem settings_of_kept {s t : World} (h : kept t = kept s) : settings t = settings s := by
  have hw := congrArg settingsOf h
  exact hw

theorem Keeps.settings {α : Type} {m : Prog World α} (h : Keeps kept m) {c : Nat × Nat × Nat} {s : World}
    (hs : settings s = c) : WP m s (fun _ t => settings t = c) (fun t => settings t = c) :=
  (h s).mono (fun _ _ e => (settings_of_kept e).trans hs) fun _ e => (settings_of_kept e).trans hs

theorem settings_invariant (c : Nat × Nat × Nat) :
    Invariant env (fun s => settings s = c) (fun s => settings s = c) (fun s => settings s = c) where
  running _ h := h
  passed _ h := h
  inert h hi := by
    have hw := congrArg settingsOf hi.w
    exact hw.trans h
  tick _ h := h
  tickPassed _ h := h
  special n _ _ h _ := Keeps.settings (writeOneSpecialPiece_kept env n _) h
  specialPassed n _ h _ := Keeps.settings (writeOneSpecialPiece_kept env n 1) h
  guard _ h _ := h
  begin _ h _ := h
  header _ _ h := h
  piece n p _ h := Keeps.settings (writePiece_kept env n p) h
  expire expired s h := Keeps.settings (kept_of_offFiles (offFiles_of_offRemoval (dropExpired_offRemoval env expired _))) h
  dirs _ _ _ h := h
  update h hu := by
    obtain ⟨_, _, _, _, -, -, ⟨_, -, rfl⟩ | ⟨-, rfl⟩⟩ := handleUpdateHeader_cases hu
    · exact h
    · exact h

theorem start_settings {env : Env} {fuel : Nat} {u : Uninit} {dir : Path} {guid : Name} {S life report : Nat} {disk : Tree}
    {mediaTs : Nat} {w : World} (h : start env fuel u dir guid S life report disk = .ret mediaTs w) :
    settings w = (S, S, blockLifeSpan life) := by
  refine (WP.ret ((settings_invariant (S, S, blockLifeSpan life)).init fuel 0 (fun _ => rfl) fun d _ => ?_) h).1
  refine (Keeps.settings (kept_of_offFiles (offFiles_of_offRemoval (loadPieces_offRemoval env _ _))) rfl).mono
    (fun _ t ht => ?_) fun _ h => h
  exact Keeps.settings (resumePieces_kept 0) ht

theorem readerStep_config {r : Reader} {e : Event} {out : Reader × List Call} (h : readerStep r e = some out) :
    config out.1 = config r := by
  cases e with
  | tick =>
    cases h
    unfold readerOnClockAlarm doBegin
    dsimp only
    split_ifs <;> rfl
  | opened ok =>
    simp only [readerStep] at h
    split at h
    · cases h
      unfold onHttpOpen
      split <;> rfl
    · cases h
  | data bytes =>
    simp only [readerStep] at h
    split at h
    · split at h
      · cases h
        exact onContent_config r _ bytes
      · cases h
    · cases h
  | lost =>
    simp only [readerStep] at h
    split at h
    · cases h
      rfl
    · cases h
  | handle fuel => cases h
  | alarm fuel => cases h

theorem systemStep_config {s t : System} {e : Event} (h : systemStep env s e = some t) : config t.reader = config s.reader := by
  have hreader : ∀ e : Event, (readerStep s.reader e).map (applyReader s) = some t → config t.reader = config s.reader :=
    fun e h => by
      obtain ⟨out, ho, rfl⟩ := Option.map_eq_some_iff.mp h
      rw [applyReader, (foldl_post_frame _ out.2 { s with reader := out.1 }).1]
      exact readerStep_config ho
  cases e with
  | handle fuel =>
    rw [systemStep] at h
    split at h
    · obtain ⟨u, -, rfl⟩ := Option.map_eq_some_iff.mp h
      rfl
    · cases h
  | alarm fuel =>
    obtain ⟨u, -, rfl⟩ := Option.map_eq_some_iff.mp h
    rfl
  | tick => exact hreader .tick h
  | opened ok => exact hreader (.opened ok) h
  | data bytes => exact hreader (.data bytes) h
  | lost => exact hreader .lost h

/-- The states of the worker that was started with this interval. -/
def Running (env : Env) (strArg5 : Name) (s : System) : Prop :=
  ∃ fuel u strArg1 dir guid strArg3 cutWithKf needModifyTs report disk s₀,
    tmain env fuel u strArg1 dir guid strArg3 strArg5 cutWithKf needModifyTs report disk = some s₀ ∧
      Reach (systemStep env) (fun _ _ => True) s₀ s

/-- Nothing changes what the interval has been copied into. -/
theorem Running.scaled {strArg5 : Name} {s : System} (h : Running env strArg5 s) :
    s.reader.cutScale = u32 (acceptedInterval strArg5 * 1000) ∧ Scaled (acceptedInterval strArg5) s.world := by
  obtain ⟨fuel, u, strArg1, dir, guid, strArg3, kf, modify, report, disk, s₀, h₀, hr⟩ := h
  obtain ⟨mediaTs, w, hw, he⟩ := Res.andThen_eq_some h₀
  cases he
  have h := hr.invariant (fun s => s.reader.cutScale = u32 (acceptedInterval strArg5 * 1000) ∧
    settings s.world = (acceptedInterval strArg5, acceptedInterval strArg5, blockLifeSpan (acceptedLifeSpan strArg3)))
    ⟨rfl, start_settings hw⟩ fun s e t hs _ hstep =>
      ⟨(cutScale_of_config (systemStep_config hstep)).trans hs.1, (settings_invariant _).systemStep hs.2 hstep⟩
  exact ⟨h.1, .of_settings h.2⟩

/-! ## The intervals -/

/-- What the interval is asked for: `cut_scale_` does not wrap, no divisor is 0, the
casts are positive, and the loops end for every clock below `2^31`. -/
structure SafeInterval (strArg5 : Name) : Prop where
  exact : ∀ url kf modify mediaTs,
    (startReader url kf modify (acceptedInterval strArg5) mediaTs).cutScale = 1000 * acceptedInterval strArg5
  built : ∀ u dir guid life report disk,
    (construct u dir guid (acceptedInterval strArg5) life report disk).w.pieceScale ≠ 0 ∧
      (construct u dir guid (acceptedInterval strArg5) life report disk).w.checkpointScale ≠ 0
  divisors : ∀ {env : Env} {s : System}, Running env strArg5 s →
    s.reader.cutScale ≠ 0 ∧ s.world.w.pieceScale ≠ 0 ∧ s.world.w.checkpointScale ≠ 0
  positive : ∀ {env : Env} {s : System}, Running env strArg5 s → 0 < i32 s.world.w.pieceScale
  pads : ∀ {env : Env} {s : World}, (∀ n, env.utc n < 2 ^ 31) → s.w.pieceScale = acceptedInterval strArg5 →
    ∀ ty ≤ 1, Ends env s (2 ^ 32) (padLoop env ty (2 ^ 32) s)
  fills : ∀ {env : Env} {s : World} {nowId : Nat}, nowId < 2 ^ 31 → s.w.pieceScale = acceptedInterval strArg5 →
    Ends env s (2 ^ 32) (fillLoop env nowId (2 ^ 32) s)

theorem acceptedInterval_pos (strArg5 : Name) : 0 < acceptedInterval strArg5 := by
  unfold acceptedInterval
  dsimp only
  split
  · decide
  · omega

/-- The interval is safe exactly if it is one of less than `2^32` milliseconds. -/
theorem safe_interval_iff (strArg5 : Name) : SafeInterval strArg5 ↔ acceptedInterval strArg5 ≤ 4294967 := by
  have h₀ := acceptedInterval_pos strArg5
  constructor
  · intro h
    have he : u32 (acceptedInterval strArg5 * 1000) = 1000 * acceptedInterval strArg5 := h.exact [] false false 0
    have hlt : u32 (acceptedInterval strArg5 * 1000) < 2 ^ 32 := Nat.mod_lt _ (by decide)
    omega
  · intro h
    have hu : u32 (acceptedInterval strArg5 * 1000) = 1000 * acceptedInterval strArg5 := by
      rw [u32_of_lt (by omega), Nat.mul_comm]
    have htop : ∀ s : World, toTop s.w < 2 ^ 32 := fun s => Nat.mod_lt _ (by decide)
    refine ⟨fun _ _ _ _ => hu, fun _ _ _ _ _ _ => ⟨h₀.ne', h₀.ne'⟩, fun hr => ?_, fun hr => ?_, fun hc hS ty hty => ?_,
      fun hc hS => ?_⟩
    · obtain ⟨hcut, hs⟩ := hr.scaled
      rw [hcut, hu, hs.pieceScale, hs.checkpointScale]
      omega
    · rw [hr.scaled.2.pieceScale, i32_of_lt (by omega)]
      omega
    · exact padLoop_ends h₀ (by omega) hc hty _ hS (htop _)
    · exact fillLoop_ends h₀ (by omega) hc _ hS (htop _)

/-- With the interval 536870912 `cut_scale_` is 0, and the constructor of the reader
divides by it; with -5 the casts of `piece_scale_` give -5. -/
theorem interval_overflows :
    (startReader ['u'] false false (acceptedInterval "536870912".toList) 0).cutScale = 0 ∧
      ¬ SafeInterval "536870912".toList ∧
      i32 (construct zeroed [] ['g'] (acceptedInterval "-5".toList) 100 60 ⟨[], []⟩).w.pieceScale = -5 ∧
      ¬ SafeInterval "-5".toList := by
  have hcut : (startReader ['u'] false false (acceptedInterval "536870912".toList) 0).cutScale = 0 := by decide +kernel
  have hfive : (startReader ['u'] false false (acceptedInterval "-5".toList) 0).cutScale ≠ 1000 * acceptedInterval "-5".toList := by
    decide +kernel
  refine ⟨hcut, fun h => ?_, by decide +kernel, fun h => hfive (h.exact ['u'] false false 0)⟩
  have he := h.exact ['u'] false false 0
  rw [hcut] at he
  exact absurd he (by decide +kernel)

end XH.Proof.Cutter
