import Mathlib.Algebra.Ring.Divisibility.Basic
import Mathlib.Data.List.Range
import Xhome.Impl.Vod.Playlist

/-!
# The timestamps of a playlist

The cutter's ids are the multiples of its piece scale. `M3uBuilder` rounds the
time down to the interval and then subtracts the delay as it is, so that the
timestamps it lists are ids exactly if the delay is a multiple of the interval:
`playlist_aligned_iff`. A segment has the same media sequence number in every
playlist of one URI: `media_sequence_stable`.
-/

namespace XH.Proof.Vod

open XH.Impl.Vod

/-- The id the cutter gives to the slot of a time,
`GetUTC() / piece_scale_ * piece_scale_`. -/
def slotId (pieceScale utc : Nat) : Nat := utc / pieceScale * pieceScale

/-- All timestamps are multiples of the interval, those of times are ids of
slots, and each is one interval behind the one before. -/
structure Aligned (interval : Nat) (ts : List Int) : Prop where
  dvd : ∀ t ∈ ts, (interval : Int) ∣ t
  slot : ∀ t ∈ ts, 0 ≤ t → ∃ utc, t = slotId interval utc
  apart : ts.IsChain fun a b => b = a + (interval : Int)

section

variable {now interval delay : Nat}

theorem timestamps_isChain (now interval delay : Nat) :
    (timestamps now interval delay).IsChain fun a b => b = a + (interval : Int) := by
  rw [timestamps, List.isChain_map]
  apply (List.isChain_range _ _).mpr
  intro i _
  rw [Nat.succ_mul]
  omega

theorem slotId_of_dvd {t : Int} (h : (interval : Int) ∣ t) (h0 : 0 ≤ t) : ∃ utc, t = slotId interval utc := by
  obtain ⟨n, rfl⟩ := Int.eq_ofNat_of_zero_le h0
  refine ⟨n, ?_⟩
  rw [slotId, Nat.div_mul_cancel (Int.natCast_dvd_natCast.mp h)]

/-- The delay decides whether a timestamp is a multiple. -/
theorem dvd_timestamp_iff (i : Nat) :
    (interval : Int) ∣ timeStart now interval delay + (i * interval : Nat) ↔ interval ∣ delay := by
  have hmul : ∀ n : Nat, (interval : Int) ∣ (n * interval : Nat) := fun n =>
    Int.natCast_dvd_natCast.mpr (Nat.dvd_mul_left interval n)
  rw [timeStart, dvd_add_left (hmul i), dvd_sub_left (hmul lenBeforeDelay), dvd_sub_right (hmul (now / interval)),
    Int.natCast_dvd_natCast]

/-- The segments listed for an interval and a delay are slots of a cutter with
that piece scale exactly if the delay is a multiple of the interval. -/
theorem timestamps_aligned_iff (now interval delay : Nat) :
    Aligned interval (timestamps now interval delay) ↔ interval ∣ delay := by
  constructor
  · intro h
    refine (dvd_timestamp_iff 0).mp (h.dvd _ (List.mem_map.mpr ⟨0, List.mem_range.mpr (by decide), rfl⟩))
  · intro h
    have hdvd : ∀ t ∈ timestamps now interval delay, (interval : Int) ∣ t := by
      intro t ht
      obtain ⟨i, -, rfl⟩ := List.mem_map.mp ht
      exact (dvd_timestamp_iff i).mpr h
    exact ⟨hdvd, fun t ht h0 => slotId_of_dvd (hdvd t ht) h0, timestamps_isChain now interval delay⟩

end

/-- Whatever playlist is asked for, at any time. -/
theorem playlist_aligned_iff {now : Nat} {host uri args : Text} {p : Playlist}
    (h : m3uBuilder now host uri args = some p) : Aligned p.uri.interval p.timestamps ↔ p.uri.interval ∣ p.uri.delay := by
  unfold m3uBuilder at h
  obtain ⟨u, -, h⟩ := Option.bind_eq_some_iff.mp h
  split at h
  · cases h
  · obtain rfl := Option.some.inj h
    exact timestamps_aligned_iff now u.interval u.delay

/-- The client seeks a point 63 seconds ago. -/
theorem seek_not_aligned :
    ∃ p, m3uBuilder 1381283177 [] (generateStreamUrl "abc".toList 63) [] = some p ∧ p.uri.interval = 5 ∧
      ¬ Aligned p.uri.interval p.timestamps := by
  have hp : parseUri (generateStreamUrl "abc".toList 63) = some ⟨5, 63, ['a', 'b', 'c']⟩ := by decide +kernel
  refine ⟨_, by rw [m3uBuilder, hp]; rfl, rfl, fun h => ?_⟩
  exact absurd ((timestamps_aligned_iff 1381283177 5 63).mp h) (by decide)

/-- The client's default delay. -/
theorem default_aligned :
    ∃ p, m3uBuilder 1381283177 [] (generateStreamUrl "abc".toList 0) [] = some p ∧
      Aligned p.uri.interval p.timestamps := by
  have hp : parseUri (generateStreamUrl "abc".toList 0) = some ⟨5, 60, ['a', 'b', 'c']⟩ := by decide +kernel
  cases hm : m3uBuilder 1381283177 [] (generateStreamUrl "abc".toList 0) [] with
  | none => rw [m3uBuilder, hp] at hm; cases hm
  | some p =>
    have hu : p.uri = ⟨5, 60, ['a', 'b', 'c']⟩ := by
      rw [m3uBuilder, hp] at hm
      obtain rfl := Option.some.inj hm
      rfl
    exact ⟨p, rfl, (playlist_aligned_iff hm).mpr (by rw [hu]; decide)⟩

/-! ## Media sequence numbers -/

theorem str_ofNat (n : Nat) : str n = decimal n := by
  show (Nat.repr n).toList = _
  rw [Nat.repr, String.toList_ofList, decimal]

theorem str_negSucc (n : Nat) : str (Int.negSucc n) = '-' :: decimal (n + 1) := by
  show ("-" ++ Nat.repr (n + 1)).toList = _
  simp only [String.toList_append, Nat.repr, String.toList_ofList, decimal]
  rfl

theorem str_inj {a b : Int} (h : str a = str b) : a = b := by
  have hneg : ∀ m n : Nat, str (Int.ofNat m) ≠ str (Int.negSucc n) := by
    intro m n e
    rw [Int.ofNat_eq_natCast, str_ofNat, str_negSucc] at e
    have hd := isDigit_of_mem_decimal (n := m) (c := '-') (by rw [e]; exact List.mem_cons_self)
    exact absurd hd (by decide)
  cases a with
  | ofNat m =>
    cases b with
    | ofNat n =>
      rw [Int.ofNat_eq_natCast, Int.ofNat_eq_natCast, str_ofNat, str_ofNat] at h
      rw [decimal_inj h]
    | negSucc n => exact absurd h (hneg m n)
  | negSucc m =>
    cases b with
    | ofNat n => exact absurd h.symm (hneg n m)
    | negSucc n =>
      rw [str_negSucc, str_negSucc] at h
      rw [Nat.succ.inj (decimal_inj (List.cons.inj h).2)]

theorem append_middle_inj {pre x y post args : Text} (h : pre ++ x ++ post ++ args = pre ++ y ++ post ++ args) : x = y :=
  List.append_cancel_left (List.append_cancel_right (List.append_cancel_right h))

theorem segmentUri_inj {host channel args : Text} {a b : Int} (h : segmentUri host channel args a = segmentUri host channel args b) :
    a = b := by
  unfold segmentUri at h
  exact str_inj (append_middle_inj h)

/-- An entry of a playlist. -/
theorem entry_assoc (a n b c h d ch e t f args g : Text) : a ++ n ++ b ++ c ++ h ++ d ++ ch ++ e ++ t ++ f ++ args ++ g =
    a ++ n ++ b ++ (c ++ h ++ d ++ ch ++ e ++ t ++ f ++ args) ++ g := by
  simp only [List.append_assoc]

/-- With `drm` off the content is the one of `m3uBuilder`. -/
theorem m3uBuilder_content (now : Nat) (host uri args : Text) :
    (m3uBuilder now host uri args).map Playlist.content = (m3u8Builder (fun _ => none) now host uri args).map M3u8.content := by
  rw [m3uBuilder, m3u8Builder]
  cases parseUri uri with
  | none => rfl
  | some u =>
    show Option.map _ (if u.interval = 0 then none else _) = Option.map _ (if u.interval = 0 then none else _)
    split
    · rfl
    · apply congrArg some
      unfold M3u8.content
      dsimp only
      rw [Option.getD_none, List.append_nil, List.flatMap_map]
      refine congrArg _ (congrArg₂ _ ?_ rfl)
      funext t
      unfold segmentUri
      exact entry_assoc _ _ _ _ _ _ _ _ _ _ _ _

/-- The times behind `t₁` up to `t₂` at which an interval begins. -/
def boundaries (interval t₁ t₂ : Nat) : Nat := (List.range' (t₁ + 1) (t₂ - t₁)).countP fun t => interval ∣ t

theorem boundaries_eq (interval : Nat) {t₁ t₂ : Nat} (h : t₁ ≤ t₂) :
    t₁ / interval + boundaries interval t₁ t₂ = t₂ / interval := by
  induction t₂, h using Nat.le_induction with
  | base => rw [boundaries, Nat.sub_self]; rfl
  | succ t h ih =>
    have hstep : boundaries interval t₁ (t + 1) = boundaries interval t₁ t + if interval ∣ t + 1 then 1 else 0 := by
      rw [boundaries, Nat.succ_sub h, List.range'_1_concat, List.countP_append, List.countP_singleton]
      simp only [decide_eq_true_eq, show t₁ + 1 + (t - t₁) = t + 1 by omega]
      rfl
    rw [hstep, Nat.succ_div, ← Nat.add_assoc, ih]

/-- The sequence number counts the intervals up to the time. -/
theorem mediaSequence_eq (now : Nat) {interval : Nat} (delay : Nat) (h : interval ≠ 0) :
    timeStart now interval delay / interval = (now / interval : Nat) + (-(delay : Int) / interval - lenBeforeDelay) := by
  have hi : (interval : Int) ≠ 0 := Int.natCast_ne_zero.mpr h
  have hs : timeStart now interval delay = -(delay : Int) + ((now / interval : Nat) - lenBeforeDelay : Int) * interval := by
    rw [timeStart, Int.sub_mul, Int.natCast_mul, Int.natCast_mul]
    omega
  rw [hs, Int.add_mul_ediv_right _ _ hi]
  omega

theorem timestamp_eq {now interval delay i : Nat} {t : Int} (h : (timestamps now interval delay)[i]? = some t) :
    t = timeStart now interval delay + (i * interval : Nat) := by
  rw [timestamps, List.getElem?_map] at h
  obtain ⟨k, hk, rfl⟩ := Option.map_eq_some_iff.mp h
  obtain ⟨hlt, rfl⟩ := List.getElem?_eq_some_iff.mp hk
  rw [List.getElem_range]

/-- Two playlists of one URI: a segment that both list has one sequence number,
and the media sequence grows by the intervals that begin between the times. -/
theorem media_sequence_stable {keyTag₁ keyTag₂ : Text → Option Text} {t₁ t₂ : Nat} {host uri args : Text} {p₁ p₂ : M3u8}
    (h₁ : m3u8Builder keyTag₁ t₁ host uri args = some p₁) (h₂ : m3u8Builder keyTag₂ t₂ host uri args = some p₂)
    (ht : t₁ ≤ t₂) : (∀ (i j : Nat) u, p₁.segmentUris[i]? = some u → p₂.segmentUris[j]? = some u →
        p₁.mediaSequence + i = p₂.mediaSequence + j) ∧
      p₁.mediaSequence ≤ p₂.mediaSequence ∧
      p₂.mediaSequence - p₁.mediaSequence = boundaries p₁.interval t₁ t₂ := by
  unfold m3u8Builder at h₁ h₂
  obtain ⟨u, hu, h₁⟩ := Option.bind_eq_some_iff.mp h₁
  obtain ⟨u', hu', h₂⟩ := Option.bind_eq_some_iff.mp h₂
  obtain rfl := Option.some.inj (hu.symm.trans hu')
  split at h₁
  · cases h₁
  rename_i h0
  rw [if_neg h0] at h₂
  obtain rfl := Option.some.inj h₁
  obtain rfl := Option.some.inj h₂
  have hb := boundaries_eq u.interval ht
  dsimp only
  rw [mediaSequence_eq t₁ u.delay h0, mediaSequence_eq t₂ u.delay h0]
  generalize -(u.delay : Int) / u.interval - lenBeforeDelay = c
  refine ⟨fun i j uri hi hj => ?_, by omega, by omega⟩
  rw [List.getElem?_map] at hi hj
  obtain ⟨a, ha, rfl⟩ := Option.map_eq_some_iff.mp hi
  obtain ⟨b, hb', he⟩ := Option.map_eq_some_iff.mp hj
  obtain rfl := segmentUri_inj he
  -- the segment is as many intervals behind the first one as the playlists are apart
  have hsame := (timestamp_eq ha).symm.trans (timestamp_eq hb')
  have hmul : (t₁ / u.interval + i) * u.interval = (t₂ / u.interval + j) * u.interval := by
    rw [timeStart, timeStart] at hsame
    rw [Nat.add_mul, Nat.add_mul]
    omega
  have hcount := Nat.eq_of_mul_eq_mul_right (Nat.pos_of_ne_zero h0) hmul
  omega

theorem m3u8Builder_eq (keyTag : Text → Option Text) (now : Nat) (host args : Text) {uri : Text} {u : M3uUri}
    (hu : parseUri uri = some u) (h0 : u.interval ≠ 0) : ∃ p, m3u8Builder keyTag now host uri args = some p ∧
      p.interval = u.interval := by
  rw [m3u8Builder, hu, Option.bind_eq_bind, Option.bind_some, if_neg h0]
  exact ⟨_, rfl, rfl⟩

/-- The playlist of the client's default URI, and again seven seconds later. -/
theorem media_sequence_stable_reload : ∃ p₁ p₂,
    m3u8Builder (fun _ => none) 1381283177 [] (generateStreamUrl "abc".toList 0) [] = some p₁ ∧
    m3u8Builder (fun _ => none) 1381283184 [] (generateStreamUrl "abc".toList 0) [] = some p₂ ∧
    p₂.mediaSequence - p₁.mediaSequence = 1 := by
  have hp : parseUri (generateStreamUrl "abc".toList 0) = some ⟨5, 60, ['a', 'b', 'c']⟩ := by decide +kernel
  obtain ⟨p₁, h₁, hi⟩ := m3u8Builder_eq (fun _ => none) 1381283177 [] [] hp (by decide)
  obtain ⟨p₂, h₂, -⟩ := m3u8Builder_eq (fun _ => none) 1381283184 [] [] hp (by decide)
  refine ⟨p₁, p₂, h₁, h₂, ?_⟩
  rw [(media_sequence_stable h₁ h₂ (by decide)).2.2, hi]
  decide

end XH.Proof.Vod
