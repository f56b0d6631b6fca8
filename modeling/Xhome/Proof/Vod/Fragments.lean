import Xhome.Framework.Decimal
import Xhome.Framework.Pattern
import Xhome.Impl.Vod.Manifest
import Xhome.Proof.Vod.Playlists

/-!
# The fragments of a manifest

A manifest leads its player to the documented URLs (`manifest_url`). They hold
the channel, the track and, in the first ten digits of the time, the id of the
block (`fragmentUrl_parts`), but two places behind those that
`wsgi_flv2fragment.application` looks at: what it takes for the track is always
the delay (`fragment_unresolved`).
-/

namespace XH.Proof.Vod

open XH.Impl.Vod XH.Pattern

/-- The URL of a chunk, relative to the one of the manifest. -/
theorem manifest_url (m : Manifest) (track : Track) (time : Int) :
    '/' :: ("live".toList ++ '/' :: (str m.uri.interval ++ '/' :: (str m.uri.delay ++ '/' :: m.url track time))) =
      fragmentUrl m.uri track time ++ m.args := by
  simp only [fragmentUrl, Manifest.url, List.cons_append, List.append_assoc]

theorem slash_not_mem_str (n : Nat) : '/' ∉ str n := by
  rw [str_ofNat]
  intro h
  exact absurd (isDigit_of_mem_decimal h) (by decide)

theorem slash_not_mem_name (track : Track) : '/' ∉ track.name := by
  cases track <;> decide

/-- The front of the URL. -/
theorem splitOn_fragmentUrl (u : M3uUri) (track : Track) (time : Int) :
    (fragmentUrl u track time).splitOn '/' = [] :: "live".toList :: str u.interval :: str u.delay ::
      (u.channel ++ '/' :: (track.name ++ '/' :: (str time ++ ".fragment".toList))).splitOn '/' := by
  have h : fragmentUrl u track time = [] ++ '/' :: ("live".toList ++ '/' :: (str u.interval ++ '/' ::
    (str u.delay ++ '/' :: (u.channel ++ '/' :: (track.name ++ '/' :: (str time ++ ".fragment".toList)))))) := rfl
  rw [h, splitOn_part List.not_mem_nil, splitOn_part (w := "live".toList) (by decide),
    splitOn_part (slash_not_mem_str u.interval), splitOn_part (slash_not_mem_str u.delay)]

/-- The id of a chunk. -/
def chunkId (now : Nat) (m : Manifest) (k : Nat) : Int :=
  blockIdFirst now m.uri.interval m.uri.delay + k * (m.uri.interval : Int)

/-- A chunk of a manifest, asked for with its URL, is taken for the channel, the track and the id it has. -/
def Resolves (now : Nat) (m : Manifest) (track : Track) (k : Nat) : Prop :=
  parseFragmentUri (fragmentUrl m.uri track (m.startTime k)) = some ⟨m.uri.channel, track.name, str (chunkId now m k)⟩ ∧
    getGuid (fragmentUrl m.uri track (m.startTime k)) = some m.uri.channel

/-- The start time of a chunk is its id in the units of the time scale. -/
theorem startTime_eq {now : Nat} {uri args : Text} {m : Manifest} (h : manifestBuilder now uri args = some m) (k : Nat) :
    m.startTime k = chunkId now m k * timeScale := by
  unfold manifestBuilder at h
  obtain ⟨u, -, h⟩ := Option.bind_eq_some_iff.mp h
  split at h
  · cases h
  obtain rfl := Option.some.inj h
  rw [Manifest.startTime, chunkId, Int.add_mul, Int.mul_assoc]

/-- What is taken for the track is the delay. -/
theorem parse_fragmentUrl {u : M3uUri} {track : Track} {time : Int} {f : FragmentUri}
    (h : parseFragmentUri (fragmentUrl u track time) = some f) : f.channelId = str u.interval ∧ f.avTrack = str u.delay := by
  rw [parseFragmentUri, splitOn_fragmentUrl] at h
  obtain ⟨c, hc, h⟩ := Option.bind_eq_some_iff.mp h
  obtain ⟨t, ht, h⟩ := Option.bind_eq_some_iff.mp h
  obtain ⟨s, -, h⟩ := Option.bind_eq_some_iff.mp h
  obtain rfl := Option.some.inj h
  exact ⟨(Option.some.inj hc).symm, (Option.some.inj ht).symm⟩

/-- No chunk of any manifest is resolved, at the time that its id gives. -/
theorem fragment_unresolved {now : Nat} {uri args : Text} {m : Manifest} (h : manifestBuilder now uri args = some m)
    (track : Track) (k : Nat) : m.startTime k = chunkId now m k * timeScale ∧ ¬Resolves now m track k := by
  refine ⟨startTime_eq h k, ?_⟩
  rintro ⟨hp, -⟩
  have ht : track.name = str m.uri.delay := (parse_fragmentUrl hp).2
  -- a track is no number
  rw [str_ofNat] at ht
  have hd : ∀ c ∈ track.name, c.isDigit := fun c hc => isDigit_of_mem_decimal (ht ▸ hc)
  cases track <;> exact absurd (hd 'd' (by decide)) (by decide)

/-! ## What the URL holds -/

/-- The channel, the track and the id are two places behind those that are looked at. -/
theorem fragmentUrl_parts {u : M3uUri} (track : Track) {id : Nat} (hc : '/' ∉ u.channel) (h : 10 ^ 9 ≤ id)
    (h' : id < 10 ^ 10) :
    ((fragmentUrl u track (id * timeScale : Nat)).splitOn '/')[4]? = some u.channel ∧
      ((fragmentUrl u track (id * timeScale : Nat)).splitOn '/')[5]? = some track.name ∧
      (((fragmentUrl u track (id * timeScale : Nat)).splitOn '/')[6]?).map (List.take 10) = some (decimal id) := by
  have hlast : '/' ∉ str (id * timeScale : Nat) ++ ".fragment".toList := by
    rw [List.mem_append, not_or]
    exact ⟨slash_not_mem_str _, by decide⟩
  rw [splitOn_fragmentUrl, splitOn_part hc, splitOn_part (slash_not_mem_name track), List.splitOn_eq_singleton hlast]
  refine ⟨rfl, rfl, congrArg some ?_⟩
  have hlo : 10 ^ (9 + 7) ≤ id * timeScale := by rw [timeScale]; omega
  have hhi : id * timeScale < 10 ^ (9 + 7 + 1) := by rw [timeScale]; omega
  have hlen : 10 ≤ (decimal (id * timeScale)).length := by
    rw [length_decimal hlo hhi]
    decide
  rw [str_ofNat, List.take_append_of_le_length hlen, take_decimal (j := 9) hlo hhi, timeScale]
  exact congrArg decimal (Nat.mul_div_cancel id (by decide))

theorem suffix_append {s : Text} (h : '.' ∉ s) (pre : Text) : suffix (pre ++ '.' :: s) = s := by
  have hs : ∀ c ∈ s.reverse, decide (c ≠ '.') = true := fun c hc => decide_eq_true fun e =>
    h (e ▸ List.mem_reverse.mp hc)
  rw [suffix, List.reverse_append, List.reverse_cons, List.append_assoc, List.takeWhile_append_of_pos hs,
    List.singleton_append, List.takeWhile_cons_of_neg (by decide), List.append_nil, List.reverse_reverse]

theorem suffix_fragmentUrl (u : M3uUri) (track : Track) (time : Int) :
    suffix (fragmentUrl u track time) = "fragment".toList := by
  have h : fragmentUrl u track time = ('/' :: ("live".toList ++ '/' :: (str u.interval ++ '/' :: (str u.delay ++ '/' ::
      (u.channel ++ '/' :: (track.name ++ '/' :: str time)))))) ++ '.' :: "fragment".toList := by
    simp only [fragmentUrl, List.cons_append, List.append_assoc]
    rfl
  rw [h, suffix_append (by decide)]

/-- `getGuid` finds the channel. -/
theorem getGuid_fragmentUrl {u : M3uUri} (track : Track) (time : Int) (hc : '/' ∉ u.channel) :
    getGuid (fragmentUrl u track time) = some (lc u.channel) := by
  have hp : part (fragmentUrl u track time) 4 = u.channel := by
    rw [part, splitOn_fragmentUrl, splitOn_part hc]
    rfl
  rw [getGuid, suffix_fragmentUrl, getFragmentGuid, hp]
  rfl

/-- A manifest of a channel. -/
def manifestUri : Text := "/live/5/60/ac9457f5aa2c4ed48c5c2d8c9c0678d6.manifest".toList

theorem fragment_unresolved_first : ∃ m, manifestBuilder 1353923339 manifestUri [] = some m ∧
    m.startTime 0 = 13539232700000000 ∧ ¬Resolves 1353923339 m .video 0 := by
  have hu : parseUri manifestUri = some ⟨5, 60, "ac9457f5aa2c4ed48c5c2d8c9c0678d6".toList⟩ := by decide +kernel
  obtain ⟨m, hm, he⟩ : ∃ m, manifestBuilder 1353923339 manifestUri [] = some m ∧
      m.uri = ⟨5, 60, "ac9457f5aa2c4ed48c5c2d8c9c0678d6".toList⟩ := by
    rw [manifestBuilder, hu]
    exact ⟨_, rfl, rfl⟩
  obtain ⟨ht, hr⟩ := fragment_unresolved hm .video 0
  refine ⟨m, hm, ?_, hr⟩
  rw [ht, chunkId, he]
  decide

/-- The first chunk of its video is taken for the channel 5, the track 60 and the first digits of the channel. -/
theorem fragment_misread : ∃ m, manifestBuilder 1353923339 manifestUri [] = some m ∧
    parseFragmentUri (fragmentUrl m.uri .video (m.startTime 0)) = some ⟨['5'], ['6', '0'], "ac9457f5aa".toList⟩ ∧
    ¬Resolves 1353923339 m .video 0 := by
  have hu : parseUri manifestUri = some ⟨5, 60, "ac9457f5aa2c4ed48c5c2d8c9c0678d6".toList⟩ := by decide +kernel
  have hp : parseFragmentUri (fragmentUrl ⟨5, 60, "ac9457f5aa2c4ed48c5c2d8c9c0678d6".toList⟩ .video
      (blockIdFirst 1353923339 5 60 * timeScale + 0 * (5 * timeScale))) =
        some ⟨['5'], ['6', '0'], "ac9457f5aa".toList⟩ := by decide +kernel
  obtain ⟨m, hb, rfl⟩ : ∃ m, manifestBuilder 1353923339 manifestUri [] = some m ∧
      m = ⟨⟨5, 60, "ac9457f5aa2c4ed48c5c2d8c9c0678d6".toList⟩, [], blockIdFirst 1353923339 5 60 * timeScale, 5 * timeScale⟩ := by
    rw [manifestBuilder, hu]
    exact ⟨_, rfl, rfl⟩
  refine ⟨_, hb, hp, fun h => ?_⟩
  have he := congrArg FragmentUri.avTrack (Option.some.inj (hp.symm.trans h.1))
  exact absurd he (by decide)

end XH.Proof.Vod
