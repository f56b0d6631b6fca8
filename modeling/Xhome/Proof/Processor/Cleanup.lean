import Xhome.Framework.Reach
import Xhome.Impl.Cutter.Writer
import Xhome.Impl.Processor.Cleanup

/-!
# What the cleanup removes

A directory can hold a cached block if its last id is not older than the cache
time. The countdown never reaches such a directory (`countDown_below`), not
even behind the wrap of its counter. The scan at the start takes the age of a
directory as an unsigned number, which for a directory that begins in the
future is larger than every cache time: it spares the cached directories
exactly if none begins after the present (`cleanup_spares_cached`).

The countdown gives up at the tenth missing name, so it removes the ten
directories below its first value (`countDown_covers`). That is enough if no
more can have expired since the last pass: `nothing_expired`.
-/

namespace XH.Proof.Processor

open XH.Impl.Cutter XH.Impl.Processor

/-- The directory can hold a block that is still cached. -/
def HoldsCached (now cache : Nat) (name : Name) : Prop := ∃ id, name = decimal (id / dirScale) ∧ now - cache ≤ id

theorem holdsCached_decimal {now cache d : Nat} :
    HoldsCached now cache (decimal d) ↔ now - cache ≤ d * dirScale + (dirScale - 1) := by
  constructor
  · rintro ⟨id, he, hid⟩
    obtain rfl := decimal_inj he
    simp only [dirScale]
    omega
  · intro h
    refine ⟨d * dirScale + (dirScale - 1), congrArg decimal ?_, h⟩
    simp only [dirScale]
    omega

/-! ## The scan -/

theorem stem_decimal (d : Nat) : stem (decimal d) = decimal d := if_neg (dot_not_mem_decimal d)

theorem decimal_mem_startupCleanup {now cache d : Nat} {dirs : List Name} (hd : d < 2 ^ 31) :
    decimal d ∈ startupCleanup now cache dirs ↔ decimal d ∈ dirs ∧ d ≠ 0 ∧ isOutdated now cache d = true := by
  have hid : u32OfInt (atoi (stem (decimal d))) = d := by
    rw [stem_decimal, atoi_decimal hd, u32OfInt_natCast (by omega)]
  rw [startupCleanup, List.mem_filter]
  simp only [hid, Bool.and_eq_true, decide_eq_true_eq]

theorem mem_startupCleanup {now cache d : Nat} {dirs : List Nat} (hd : d < 2 ^ 31) :
    decimal d ∈ startupCleanup now cache (dirs.map decimal) ↔
      d ∈ dirs ∧ d ≠ 0 ∧ isOutdated now cache d = true := by
  rw [decimal_mem_startupCleanup hd, List.mem_map_of_injective fun _ _ => decimal_inj]

/-- A directory that has begun is removed only when its last block is out of the cache. -/
theorem isOutdated_of_le {now cache d : Nat} (hn : now < 2 ^ 32) (hc : cache + 1000 ≤ now) (hd : d * 1000 ≤ now) :
    isOutdated now cache d = true ↔ d * 1000 + 1000 + cache < now := by
  rw [isOutdated, u32_of_lt (by omega), u32_of_lt (by omega), sub32_of_le hn hd, decide_eq_true_eq]
  omega

/-- The age of a directory that has not begun wraps. -/
theorem isOutdated_of_lt {now cache d : Nat} (hc : cache + 1000 ≤ now) (hd : now < d * 1000)
    (hd' : d * 1000 < 2 ^ 32) : isOutdated now cache d = true := by
  have hs : sub32 now (d * 1000) = now + 2 ^ 32 - d * 1000 := by simp only [sub32]; omega
  rw [isOutdated, u32_of_lt hd', u32_of_lt (by omega), hs, decide_eq_true_eq]
  omega

/-! ## The countdown -/

/-- The countdown ends: each round meets a missing name or removes one. -/
theorem countDown_returns : ∀ (fuel : Nat) (dirs : List Name) (id iCounter : Nat),
    dirs.length + (10 - iCounter) < fuel → ∃ removed, countDown fuel dirs id iCounter = some removed
  | 0, _, _, _, h => by omega
  | fuel + 1, dirs, id, iCounter, h => by
    rw [countDown]
    split
    · split
      · rename_i hm
        have hlen : (dirs.filter (· ≠ decimal id)).length < dirs.length :=
          List.length_filter_lt_length_iff_exists.mpr ⟨_, hm, by simp⟩
        obtain ⟨removed, hr⟩ := countDown_returns fuel (dirs.filter (· ≠ decimal id)) (sub32 id 1) iCounter (by omega)
        exact ⟨_, by rw [hr]; rfl⟩
      · exact countDown_returns _ _ _ _ (by omega)
    · exact ⟨[], rfl⟩

/-- The counter is at most at its first value, or has wrapped and met missing names since. -/
def Counting (first id iCounter : Nat) : Prop := id ≤ first ∨ (2 ^ 32 ≤ id + iCounter + 1 ∧ id < 2 ^ 32)

theorem Counting.removed {first id iCounter : Nat} (h : Counting first id iCounter) (hf : first < 2 ^ 32)
    (hid : id ≤ first) : Counting first (sub32 id 1) iCounter := by
  rcases Nat.eq_zero_or_pos id with rfl | hp
  · exact .inr ⟨by simp only [sub32]; omega, by decide⟩
  · exact .inl (by rw [sub32_of_le (by omega) hp]; omega)

theorem Counting.missed {first id iCounter : Nat} (h : Counting first id iCounter) (hf : first < 2 ^ 32)
    (hi : iCounter < 10) : Counting first (sub32 id 1) (iCounter + 1) := by
  rcases Nat.eq_zero_or_pos id with rfl | hp
  · exact .inr ⟨by simp only [sub32]; omega, by decide⟩
  · rcases h with h | ⟨h, h'⟩
    · exact .inl (by rw [sub32_of_le (by omega) hp]; omega)
    · refine .inr ⟨?_, ?_⟩ <;> rw [sub32_of_le h' hp] <;> omega

/-- What the countdown removes lies at its first value or below. -/
theorem countDown_below {first : Nat} (hf : first < 2 ^ 32) :
    ∀ {fuel : Nat} {dirs : List Name} {id iCounter : Nat} {removed : List Name},
      (∀ n ∈ dirs, ∃ d, n = decimal d ∧ d < 2 ^ 31) → Counting first id iCounter →
      countDown fuel dirs id iCounter = some removed → ∀ n ∈ removed, ∃ d, n = decimal d ∧ d ≤ first
  | 0, _, _, _, _, _, _, h => by cases h
  | fuel + 1, dirs, id, iCounter, removed, hd, hc, h => by
    rw [countDown] at h
    split at h
    · rename_i hi
      split at h
      · rename_i hm
        obtain ⟨r, hr, rfl⟩ := Option.map_eq_some_iff.mp h
        -- a name that exists is no wrapped one
        have hid : id ≤ first := by
          obtain ⟨d, he, hd'⟩ := hd _ hm
          obtain rfl := decimal_inj he
          rcases hc with hc | hc
          · exact hc
          · omega
        have hd' : ∀ n ∈ dirs.filter (· ≠ decimal id), ∃ d, n = decimal d ∧ d < 2 ^ 31 :=
          fun n hn => hd n (List.mem_of_mem_filter hn)
        intro n hn
        rcases List.mem_cons.mp hn with rfl | hn
        · exact ⟨id, rfl, hid⟩
        · exact countDown_below hf hd' (hc.removed hf hid) hr n hn
      · exact countDown_below hf hd (hc.missed hf hi) h
    · cases h
      exact fun n hn => by cases hn

/-- A pass removes no directory that holds a cached block. -/
theorem periodicCleanup_spares {fuel now cache : Nat} {dirs removed : List Name} (hn : now < 2 ^ 32)
    (hc : cache + 1000 ≤ now) (hd : ∀ n ∈ dirs, ∃ d, n = decimal d ∧ d < 2 ^ 31)
    (h : periodicCleanup fuel now cache dirs = some removed) : ∀ n ∈ removed, ¬HoldsCached now cache n := by
  have he : sub32 (sub32 now cache / 1000) 1 = (now - cache) / 1000 - 1 := by
    rw [sub32_of_le hn (by omega), sub32_of_le (by omega) (by omega)]
  rw [periodicCleanup, he] at h
  intro n hm hh
  obtain ⟨d, rfl, hle⟩ := countDown_below (by omega) hd (.inl (Nat.le_refl _)) h n hm
  rw [holdsCached_decimal] at hh
  simp only [dirScale] at hh
  omega

/-! ## Both -/

/-- The directories of blocks with ids up to `scale` ahead of the clock: the
scan at the start and the passes of the main loop spare every directory that
can hold a cached block exactly if no directory begins after the clock. -/
theorem cleanup_spares_cached {now cache scale : Nat} {dirs : List Nat} (hn : now < 2 ^ 32)
    (hc : cache + 1000 ≤ now) (hd : ∀ d ∈ dirs, ∃ id, id < 2 ^ 32 ∧ id ≤ now + scale ∧ d = id / dirScale) :
    ((∀ n ∈ startupCleanup now cache (dirs.map decimal), ¬HoldsCached now cache n) ∧
      ∃ removed, periodicCleanup (dirs.length + 11) now cache (dirs.map decimal) = some removed ∧
        ∀ n ∈ removed, ¬HoldsCached now cache n) ↔ ∀ d ∈ dirs, d * dirScale ≤ now := by
  have hlt : ∀ d ∈ dirs, d * dirScale < 2 ^ 32 := fun d hm => by
    obtain ⟨id, h₁, -, rfl⟩ := hd d hm
    simp only [dirScale]
    omega
  have hnames : ∀ n ∈ dirs.map decimal, ∃ d, n = decimal d ∧ d < 2 ^ 31 := fun n hm => by
    obtain ⟨d, hd, rfl⟩ := List.mem_map.mp hm
    have hb := hlt d hd
    simp only [dirScale] at hb
    exact ⟨d, rfl, by omega⟩
  constructor
  · rintro ⟨h, -⟩ d hm
    by_contra hgt
    have hb := hlt d hm
    simp only [dirScale] at hb hgt
    refine h (decimal d) ((mem_startupCleanup (by omega)).mpr
      ⟨hm, by rintro rfl; omega, isOutdated_of_lt hc (by omega) hb⟩) (holdsCached_decimal.mpr ?_)
    simp only [dirScale]
    omega
  · intro h
    refine ⟨fun n hm hh => ?_, ?_⟩
    · obtain ⟨d, rfl, hb⟩ := hnames n (List.mem_of_mem_filter hm)
      obtain ⟨hm, -, ho⟩ := (mem_startupCleanup hb).mp hm
      have hle := h d hm
      rw [holdsCached_decimal] at hh
      simp only [dirScale] at hle hh
      rw [isOutdated_of_le hn hc hle] at ho
      omega
    · obtain ⟨removed, hr⟩ := countDown_returns (dirs.length + 11) (dirs.map decimal)
        (sub32 (sub32 now cache / 1000) 1) 0 (by rw [List.length_map]; omega)
      exact ⟨removed, hr, periodicCleanup_spares hn hc hnames hr⟩

/-- The directory of the present and two older ones, with pieces of five seconds. -/
theorem cleanup_spares_cached_present :
    startupCleanup 1400000500 30 ([1400000, 1399999, 1399998].map decimal) = [decimal 1399999, decimal 1399998] ∧
    (∀ n ∈ startupCleanup 1400000500 30 ([1400000, 1399999, 1399998].map decimal), ¬HoldsCached 1400000500 30 n) ∧
    ∃ removed, periodicCleanup 14 1400000500 30 ([1400000, 1399999, 1399998].map decimal) = some removed ∧
      ∀ n ∈ removed, ¬HoldsCached 1400000500 30 n := by
  have hd : ∀ d ∈ [1400000, 1399999, 1399998], ∃ id, id < 2 ^ 32 ∧ id ≤ 1400000500 + 5 ∧ d = id / dirScale := by
    intro d hd
    refine ⟨d * dirScale, ?_⟩
    simp only [List.mem_cons, List.not_mem_nil, or_false] at hd
    rcases hd with rfl | rfl | rfl <;> decide
  exact ⟨by decide +kernel, (cleanup_spares_cached (by decide) (by decide) hd).mpr (by decide)⟩

/-- Two seconds before a directory begins the first block of it may be written,
with pieces of five seconds; the scan removes the directory. -/
theorem startup_removes_next_directory :
    (∃ id, id < 2 ^ 32 ∧ id ≤ 1399999998 + 5 ∧ 1400000 = id / dirScale) ∧
    ¬∀ n ∈ startupCleanup 1399999998 30 ([1400000].map decimal), ¬HoldsCached 1399999998 30 n := by
  refine ⟨⟨1400000000, by decide⟩, fun h => h (decimal 1400000) (by decide +kernel) ?_⟩
  exact holdsCached_decimal.mpr (by decide)

/-! ## Nothing expired is left -/

/-- `id <= (now - cache_tick) / 1000 - 1` -/
def Expired (cache now d : Nat) : Prop := (d + 1) * dirScale + cache ≤ now

instance (cache now d : Nat) : Decidable (Expired cache now d) := inferInstanceAs (Decidable (_ ≤ _))

theorem Expired.mono {cache now now' d : Nat} (h : Expired cache now d) (hn : now ≤ now') : Expired cache now' d :=
  Nat.le_trans h hn

/-- Ten ids from the first one down, or fewer where some have been missing before. -/
theorem countDown_covers {d : Nat} : ∀ {fuel : Nat} {dirs : List Name} {id iCounter : Nat} {removed : List Name},
    id < 2 ^ 32 → countDown fuel dirs id iCounter = some removed → d ≤ id → id + iCounter < d + 10 →
    decimal d ∈ dirs → decimal d ∈ removed
  | 0, _, _, _, _, _, h, _, _, _ => by cases h
  | fuel + 1, dirs, id, iCounter, removed, hid, h, hle, hlt, hm => by
    have hnext : d < id → sub32 id 1 = id - 1 := fun hd => sub32_of_le hid (by omega)
    rw [countDown, if_pos (by omega)] at h
    split at h
    · obtain ⟨r, hr, rfl⟩ := Option.map_eq_some_iff.mp h
      rcases Nat.eq_or_lt_of_le hle with rfl | hd
      · exact List.mem_cons_self
      · have hm' : decimal d ∈ dirs.filter (· ≠ decimal id) :=
          List.mem_filter.mpr ⟨hm, decide_eq_true fun e => Nat.ne_of_lt hd (decimal_inj e)⟩
        rw [hnext hd] at hr
        exact List.mem_cons_of_mem _ (countDown_covers (by omega) hr (by omega) (by omega) hm')
    · rename_i hn
      have hd : d < id := Nat.lt_of_le_of_ne hle fun e => hn (e ▸ hm)
      rw [hnext hd] at h
      exact countDown_covers (by omega) h (by omega) (by omega) hm

/-- A pass less than ten directories behind the time at which `d` expired. -/
theorem periodicCleanup_covers {fuel now cache d : Nat} {dirs removed : List Name} (hn : now < 2 ^ 32)
    (h : periodicCleanup fuel now cache dirs = some removed) (hm : decimal d ∈ dirs) (he : Expired cache now d)
    (hlate : now < (d + 1) * dirScale + cache + 10000) : decimal d ∈ removed := by
  have hfirst : sub32 (sub32 now cache / 1000) 1 = (now - cache) / 1000 - 1 := by
    simp only [Expired, dirScale] at he
    rw [sub32_of_le hn (by omega), sub32_of_le (by omega) (by omega)]
  rw [periodicCleanup, hfirst] at h
  simp only [Expired, dirScale] at he hlate
  exact countDown_covers (by omega) h (by omega) (by omega) hm

/-- A directory is created above the threshold of the present; a pass comes at
most 10000 seconds behind the one before it, and the first one sooner behind
the scan. -/
def Timely (cache : Nat) (s : WorkPath) : CleanupEvent → Prop
  | .create now id => ¬Expired cache now id
  | .pass _ now =>
    match s.passTick with
    | some tick => now ≤ tick + 10000
    | none => now < s.scanTick + 10000

/-- What the scan and the passes have seen to. -/
structure Cleaned (cache : Nat) (s : WorkPath) : Prop where
  scanned : s.scanTick ≤ s.now
  passed : ∀ tick, s.passTick = some tick → tick ≤ s.now
  /-- Between the scan and the first pass the last directory may just have expired. -/
  atScan : s.passTick = none → ∀ d, d ≠ 0 → decimal d ∈ s.dirs → s.scanTick ≤ (d + 1) * dirScale + cache
  atPass : ∀ tick, s.passTick = some tick → ∀ d, d ≠ 0 → decimal d ∈ s.dirs → ¬Expired cache tick d

/-- The scan takes an age for an unsigned number; that of a directory which has expired is right. -/
theorem cleaned_scannedPath {cache scan : Nat} (hs : scan < 2 ^ 32) (dirs : List Name) :
    Cleaned cache (scannedPath scan cache dirs) where
  scanned := Nat.le_refl _
  passed := nofun
  atScan := fun _ d h₀ hm => by
    obtain ⟨hm, hn⟩ := List.mem_filter.mp hm
    by_contra hlt
    have hlt : (d + 1) * 1000 + cache < scan := Nat.lt_of_not_le hlt
    have ho : isOutdated scan cache d = true := (isOutdated_of_le hs (by omega) (by omega)).mpr (by omega)
    exact of_decide_eq_true hn ((decimal_mem_startupCleanup (by omega)).mpr ⟨hm, h₀, ho⟩)
  atPass := nofun

section
variable {cache : Nat} {s t : WorkPath}

/-- A directory that is there is less than ten directories below the threshold of the pass. -/
theorem Cleaned.recent (h : Cleaned cache s) {fuel now d : Nat} (hp : Timely cache s (.pass fuel now)) (h₀ : d ≠ 0)
    (hm : decimal d ∈ s.dirs) : now < (d + 1) * dirScale + cache + 10000 := by
  cases hl : s.passTick with
  | some tick =>
    have hn : now ≤ tick + 10000 := by simpa only [Timely, hl] using hp
    have he : ¬(d + 1) * dirScale + cache ≤ tick := h.atPass tick hl d h₀ hm
    omega
  | none =>
    have hn : now < s.scanTick + 10000 := by simpa only [Timely, hl] using hp
    have he := h.atScan hl d h₀ hm
    omega

/-- Behind a pass. -/
theorem Cleaned.pass (h : Cleaned cache s) {fuel now : Nat} (hp : Timely cache s (.pass fuel now))
    (ht : cleanupStep cache s (.pass fuel now) = some t) :
    t.passTick = some now ∧ t.now = now ∧ ∀ d, d ≠ 0 → decimal d ∈ t.dirs → ¬Expired cache now d := by
  rw [cleanupStep] at ht
  split at ht
  · rename_i hn
    obtain ⟨removed, hr, rfl⟩ := Option.map_eq_some_iff.mp ht
    refine ⟨rfl, rfl, fun d h₀ hm he => ?_⟩
    obtain ⟨hm, hnot⟩ := List.mem_filter.mp hm
    exact of_decide_eq_true hnot (periodicCleanup_covers hn.2 hr hm he (h.recent hp h₀ hm))
  · cases ht

/-- A new directory has not expired, and had not before. -/
theorem Cleaned.create (h : Cleaned cache s) {now id : Nat} (hc : ¬Expired cache now id)
    (ht : cleanupStep cache s (.create now id) = some t) : Cleaned cache t := by
  rw [cleanupStep] at ht
  split at ht
  · rename_i hn
    cases ht
    have hnew : ∀ {d}, decimal d ∈ decimal id :: s.dirs → d = id ∨ decimal d ∈ s.dirs := fun hm =>
      (List.mem_cons.mp hm).imp_left decimal_inj
    have hlate : now < (id + 1) * dirScale + cache := Nat.lt_of_not_le hc
    have hs := h.scanned
    refine ⟨by show s.scanTick ≤ now; omega, fun tick e => Nat.le_trans (h.passed tick e) hn.1, fun e d h₀ hm => ?_,
      fun tick e d h₀ hm => ?_⟩
    · rcases hnew hm with rfl | hm
      · show s.scanTick ≤ _
        omega
      · exact h.atScan e d h₀ hm
    · rcases hnew hm with rfl | hm
      · exact fun he => hc (he.mono (Nat.le_trans (h.passed tick e) hn.1))
      · exact h.atPass tick e d h₀ hm
  · cases ht

theorem Cleaned.step (h : Cleaned cache s) {e : CleanupEvent} (ho : Timely cache s e) (ht : cleanupStep cache s e = some t) :
    Cleaned cache t := by
  cases e with
  | create now id => exact h.create ho ht
  | pass fuel now =>
    obtain ⟨hl, hn, hd⟩ := h.pass ho ht
    have hs : t.scanTick = s.scanTick ∧ s.now ≤ now := by
      rw [cleanupStep] at ht
      split at ht
      · obtain ⟨removed, -, rfl⟩ := Option.map_eq_some_iff.mp ht
        exact ⟨rfl, ‹_ ∧ _›.1⟩
      · cases ht
    have hsc := h.scanned
    refine ⟨by omega, fun tick e => ?_, fun e => ?_, fun tick e => ?_⟩
    · obtain rfl := Option.some.inj (hl.symm.trans e)
      exact Nat.le_of_eq hn.symm
    · cases hl.symm.trans e
    · obtain rfl := Option.some.inj (hl.symm.trans e)
      exact hd

end

/-- In a run whose passes come in time, behind every pass no block directory has
expired at the time of the pass; and every pass ends. -/
theorem nothing_expired {cache scan : Nat} {dirs : List Name} (hs : scan < 2 ^ 32) {s : WorkPath}
    (h : Reach (cleanupStep cache) (Timely cache) (scannedPath scan cache dirs) s) :
    (∀ fuel now t, Timely cache s (.pass fuel now) → cleanupStep cache s (.pass fuel now) = some t →
      ∀ d, d ≠ 0 → decimal d ∈ t.dirs → ¬Expired cache now d) ∧
    ∀ fuel now, s.now ≤ now → now < 2 ^ 32 → s.dirs.length + 10 < fuel →
      ∃ t, cleanupStep cache s (.pass fuel now) = some t := by
  have hc : Cleaned cache s := h.invariant _ (cleaned_scannedPath hs dirs) fun _ _ _ hi ho ht => hi.step ho ht
  refine ⟨fun fuel now t hp ht => (hc.pass hp ht).2.2, fun fuel now hn hlt hf => ?_⟩
  obtain ⟨removed, hr⟩ := countDown_returns fuel s.dirs (sub32 (sub32 now cache / 1000) 1) 0 (by omega)
  rw [cleanupStep, if_pos ⟨hn, hlt⟩, periodicCleanup, hr]
  exact ⟨_, rfl⟩

/-- The last directory has just expired at the scan, which spares it; the first pass does not. -/
theorem nothing_expired_boundary :
    decimal 1399999 ∈ (scannedPath 1400000030 30 [decimal 1399999]).dirs ∧
    ∃ t, cleanupStep 30 (scannedPath 1400000030 30 [decimal 1399999]) (.pass 12 1400000031) = some t ∧
      decimal 1399999 ∉ t.dirs := by
  have h := @nothing_expired 30 1400000030 [decimal 1399999] (by decide) _ .start
  obtain ⟨t, ht⟩ := h.2 12 1400000031 (by decide) (by decide) (by decide +kernel)
  refine ⟨by decide +kernel, t, ht, fun hm => ?_⟩
  exact h.1 12 1400000031 t (show 1400000031 < 1400000030 + 10000 by decide) ht 1399999 (by decide) hm (by decide)

/-- The directory 0, and one that expires while the scan keeps the first pass
waiting for hours, are left. -/
theorem expired_left :
    (∃ t, cleanupStep 30 (scannedPath 1400000030 30 [decimal 0]) (.pass 12 1400000030) = some t ∧
      decimal 0 ∈ t.dirs ∧ Expired 30 1400000030 0) ∧
    ∃ t, cleanupStep 30 (scannedPath 1400000030 30 [decimal 1400000]) (.pass 12 1400020030) = some t ∧
      decimal 1400000 ∈ t.dirs ∧ Expired 30 1400020030 1400000 := by
  have h₁ : (cleanupStep 30 (scannedPath 1400000030 30 [decimal 0]) (.pass 12 1400000030)).map (·.dirs) =
      some [decimal 0] := by decide +kernel
  have h₂ : (cleanupStep 30 (scannedPath 1400000030 30 [decimal 1400000]) (.pass 12 1400020030)).map (·.dirs) =
      some [decimal 1400000] := by decide +kernel
  obtain ⟨t₁, ht₁, hd₁⟩ := Option.map_eq_some_iff.mp h₁
  obtain ⟨t₂, ht₂, hd₂⟩ := Option.map_eq_some_iff.mp h₂
  exact ⟨⟨t₁, ht₁, by rw [hd₁]; exact List.mem_cons_self, by decide⟩, t₂, ht₂, by rw [hd₂]; exact List.mem_cons_self, by decide⟩

end XH.Proof.Processor
