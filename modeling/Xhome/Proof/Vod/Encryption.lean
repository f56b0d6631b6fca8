import Xhome.Framework.Reach
import Xhome.Proof.Vod.Workers

/-!
# Keys and segments

With commands that succeed a request finds no file of another one on the
ramdisk, and the dictionary leads to segments that can be transcoded: `Kept`.
A body that is not empty is `produced` of the segment asked for or of the last
one of its channel (`serve_body`). `PpboxSDKWorker` encrypts it if the playlist
has the tag of a key; `FfmpegWorker` never does.
-/

namespace XH.Proof.Vod

open XH.Impl.Vod XH.Raising

section
variable {p : Programs} {c : Config} {ask : Text → EStateM Unit (Site Disk) (List Byte)} {channelId seqId : Text}

/-! ## The handler -/

/-- The dictionary leads to segments of the channel. -/
def Recorded (p : Programs) (c : Config) (d : Text → Option Text) : Prop :=
  ∀ channelId uri, channelId ≠ [] → d channelId = some uri →
    ∃ seqId, tsRoute uri = some (channelId, seqId) ∧ produced p c channelId seqId ≠ []

/-- Between the requests. -/
structure Kept (p : Programs) (c : Config) (s : Site Disk) : Prop where
  clean : Clean s
  recorded : Recorded p c s.lastTsUri

theorem yields_bindStream {m : EStateM Unit (Site Disk) TsStream} {h : Handler Disk} {Q : TsStream → Handler Disk → Prop}
    {E : Unit → Handler Disk → Prop} :
    Yields (bindStream m) h Q E ↔ Yields m h.site (fun stream t => Q stream ⟨t, some stream, h.started⟩)
      fun e t => E e ⟨t, h.tsStream, h.started⟩ := by
  unfold bindStream onSite
  rw [yields_bind, yields_focus]
  rfl

/-- The end of `application`. -/
theorem finish_yields {r : Response} {body : TsStream} {t : Handler Disk} (hb : t.tsStream = some body)
    {Q : TsStream → Handler Disk → Prop} {E : Unit → Handler Disk → Prop}
    (hq : ∀ started, Q body ⟨t.site, some body, started⟩) :
    Yields (do
      modify fun h => { h with started := h.started ++ [r] }
      orRaise (← get).tsStream) t Q E := by
  rw [yields_bind, yields_modify, yields_bind, yields_get, hb]
  exact hq _

theorem total_pos {stream : TsStream} : 0 < stream.total ↔ stream.flatten ≠ [] := by
  rw [total_eq, List.length_pos_iff]

/-- A segment that can be transcoded. -/
theorem application_direct {uri : Text} (hu : tsRoute uri = some (channelId, seqId))
    (hne : produced p c channelId seqId ≠ []) {s : Site Disk} (hs : Kept p c s) :
    Yields (application c (p.outside ask) uri) (.start s)
      (fun body h => body.flatten = produced p c channelId seqId ∧ Kept p c h.site) fun _ _ => False := by
  rw [application_eq hu, yields_bind, yields_tryCatch]
  unfold respond
  rw [yields_bind, yields_bindStream]
  apply (transcoded_yields hs.clean).imp
  rintro stream t ⟨hl, ht, hd⟩
  have hst : stream.flatten = produced p c channelId seqId := hl ▸ readlines_flatten _
  rw [yields_ite, if_pos (total_pos.mpr (hst ▸ hne)), yields_bind, yields_modify, yields_pure]
  refine finish_yields rfl fun _ => ⟨hst, ht, fun ch uri' hch hl => ?_⟩
  have hl : Function.update t.lastTsUri channelId (some uri) ch = some uri' := hl
  by_cases hc : ch = channelId
  · rw [hc, Function.update_self] at hl
    obtain rfl := Option.some.inj hl
    exact ⟨seqId, hc ▸ hu, hc ▸ hne⟩
  · rw [Function.update_of_ne hc, hd] at hl
    exact hs.recorded ch uri' hch hl

/-- A request for the last segment of a channel. -/
theorem answer_yields {depth : Nat} {uri : Text} (hu : tsRoute uri = some (channelId, seqId))
    (hne : produced p c channelId seqId ≠ []) {s : Site Disk} (hs : Kept p c s) :
    Yields (p.answer c (depth + 1) uri) s
      (fun bs t => bs = produced p c channelId seqId ∧ Clean t ∧ Recorded p c t.lastTsUri) fun _ _ => False := by
  obtain ⟨body, hb, hf, hk⟩ := (@application_direct p c (p.answer c depth) _ _ uri hu hne s hs).exists_ok
  have happ : p.answer c (depth + 1) uri s =
      Programs.reply p.page (application c (p.outside (p.answer c depth)) uri (.start s)) := rfl
  unfold Yields
  rw [happ, hb]
  exact ⟨hf, hk.clean, hk.recorded⟩

/-- The body is empty, or it is `bs`. -/
def EmptyOr (bs : List Byte) (h : Handler Disk) : Prop :=
  ∃ stream, h.tsStream = some stream ∧ (stream.flatten ≠ [] → stream.flatten = bs)

/-- The requests for a block leave the handler as it is, but for the directory. -/
structure Same (h t : Handler Disk) : Prop where
  clean : Clean t.site
  lastTsUri : t.site.lastTsUri = h.site.lastTsUri
  tsStream : t.tsStream = h.tsStream

/-- A handler whose site is `Kept`. -/
def Going (p : Programs) (c : Config) (bs : List Byte) (h : Handler Disk) : Prop := Kept p c h.site ∧ EmptyOr bs h

theorem Same.going {bs : List Byte} {h t : Handler Disk} (ht : Same h t) (hh : Going p c bs h) : Going p c bs t := by
  refine ⟨⟨ht.clean, ht.lastTsUri ▸ hh.1.recorded⟩, ?_⟩
  unfold EmptyOr
  rw [ht.tsStream]
  exact hh.2

theorem onSite_same {range : Range} {h t : Handler Disk} (ht : Same h t) {E : Unit → Handler Disk → Prop} :
    Yields (onSite (streamWorker (p.outside ask) (.block range channelId seqId) channelId seqId)) t (fun _ => Same h) E :=
  (yields_focus _).mpr ((streamWorker_block ht.clean).imp fun _ _ hu =>
    ⟨hu.2.1, hu.2.2.trans ht.lastTsUri, ht.tsStream⟩)

theorem orRaise_same {α : Type} (a : Option α) {bs : List Byte} {h t : Handler Disk} (ht : Same h t) (hh : Going p c bs h) :
    Yields (orRaise a) t (fun _ => Same h) fun _ => Going p c bs :=
  .of_orRaise a (fun _ => ht) (ht.going hh)

/-- What is asked for in place of a hold block. -/
def lastSeqId (d : Text → Option Text) (channelId : Text) : Option Text := ((d channelId).bind tsRoute).map Prod.snd

theorem substitute_going {depth : Nat} (hc : channelId ≠ []) {bs : List Byte} {h t : Handler Disk} (ht : Same h t)
    (hh : Going p c bs h)
    (hl : ∀ last, lastSeqId h.site.lastTsUri channelId = some last → produced p c channelId last = bs) :
    Yields (substitute (p.outside (p.answer c (depth + 1))) channelId seqId) t (fun _ => Going p c bs)
      fun _ => Going p c bs := by
  unfold substitute
  rw [yields_bind, yields_get, yields_bind, ht.lastTsUri]
  cases hu : h.site.lastTsUri channelId with
  | none => exact ht.going hh
  | some uri =>
    obtain ⟨last, hr, hne⟩ := hh.1.recorded channelId uri hc hu
    have hbs : produced p c channelId last = bs := hl last (by rw [lastSeqId, hu, Option.bind_some, hr]; rfl)
    rw [orRaise, yields_pure, yields_bind, yields_bindStream]
    refine (streamWorker_ts ht.clean fun u hcl hd => answer_yields hr hne ⟨hcl, ?_⟩).imp fun stream u hu => ?_
    · rw [hd, ht.lastTsUri]
      exact hh.1.recorded
    · obtain ⟨rfl, hcl, hrec⟩ := hu
      have hg : Going p c bs ⟨u, some (readlines (produced p c channelId last)), t.started⟩ := ⟨⟨hcl, hrec⟩, _, rfl, fun _ => (readlines_flatten _).trans hbs⟩
      rw [yields_bind, yields_get]
      exact (Yields.of_orRaise _ (fun _ => hg) hg).seq fun _ _ hg => hg

theorem untranscoded_going {depth : Nat} (hc : channelId ≠ []) {bs : List Byte} {h : Handler Disk} (hh : Going p c bs h)
    (hl : ∀ last, lastSeqId h.site.lastTsUri channelId = some last → produced p c channelId last = bs) :
    Yields (untranscoded (p.outside (p.answer c (depth + 1))) channelId seqId) h (fun _ => Going p c bs)
      fun _ => Going p c bs := by
  unfold untranscoded
  refine (onSite_same ⟨hh.1.clean, rfl, rfl⟩).seq fun _ _ h₁ => (orRaise_same _ h₁ hh).seq fun _ t h₂ => ?_
  rw [yields_ite]
  split
  · refine (onSite_same h₂).seq fun _ _ h₃ => (orRaise_same _ h₃ hh).seq fun _ u h₄ => ?_
    show Yields (if _ then _ else _) u _ _
    rw [yields_ite]
    split
    · exact (substitute_going hc h₄ hh hl).seq fun _ _ h₅ => h₅
    · exact h₄.going hh
  · exact h₂.going hh

end

/-- The body of a handler at its end. -/
theorem Going.finish {p : Programs} {c : Config} {bs : List Byte} {t : Handler Disk} (ht : Going p c bs t) (r : Response) :
    Yields (do
      modify fun h => { h with started := h.started ++ [r] }
      orRaise (← get).tsStream) t (fun body h => Kept p c h.site ∧ (body.flatten ≠ [] → body.flatten = bs))
      fun _ _ => False := by
  obtain ⟨hk, stream, hst, hb⟩ := ht
  exact finish_yields hst fun _ => ⟨hk, hb⟩

/-- The segment that a request is answered with: its own or the last one of the channel. -/
def source (p : Programs) (c : Config) (s : Site Disk) (r : SegmentRequest) : Text :=
  if produced p c r.channelId r.seqId = [] then (lastSeqId s.lastTsUri r.channelId).getD r.seqId else r.seqId

section
variable {p : Programs} {c : Config} {depth : Nat} {s : Site Disk}

theorem serve_yields (depth : Nat) (r : SegmentRequest) (hs : Kept p c s) :
    Yields (application c (p.outside (p.answer c (depth + 1))) (tsUri r.channelId r.seqId)) (.start s)
      (fun body h => Kept p c h.site ∧ (body.flatten ≠ [] → body.flatten = produced p c r.channelId (source p c s r)))
      fun _ _ => False := by
  obtain ⟨-, -, hc, -⟩ := eq_of_tsRoute r.admitted
  by_cases hne : produced p c r.channelId r.seqId = []
  · have hsrc : source p c s r = (lastSeqId s.lastTsUri r.channelId).getD r.seqId := if_pos hne
    rw [application_eq r.admitted, yields_bind, yields_tryCatch]
    refine Yields.mono (Q := fun _ => Going p c (produced p c r.channelId (source p c s r)))
      (E := fun _ => Going p c (produced p c r.channelId (source p c s r))) ?_ (fun a _ h => h.finish a)
      fun _ _ h => h.finish badGateway
    unfold respond
    rw [yields_bind, yields_bindStream]
    apply (transcoded_yields hs.clean).imp
    rintro stream t ⟨hst, ht, hd⟩
    have hempty : stream.flatten = [] := by rw [hst, readlines_flatten, hne]
    rw [yields_ite, if_neg fun h => total_pos.mp h hempty]
    refine untranscoded_going hc ⟨⟨ht, hd ▸ hs.recorded⟩, stream, rfl, fun h => absurd hempty h⟩ fun last hl => ?_
    have hl : lastSeqId t.lastTsUri r.channelId = some last := hl
    rw [hd] at hl
    rw [hsrc, hl]
    rfl
  · have hsrc : source p c s r = r.seqId := if_neg hne
    exact (application_direct r.admitted hne hs).imp fun _ _ h => ⟨h.2, fun _ => hsrc ▸ h.1⟩

/-- At the start, whatever directories there are. -/
def siteAtStart (dirs : RamdiskPath → Bool) : Site Disk := ⟨⟨dirs, fun _ => none⟩, lastTsUriAtStart⟩

theorem kept_siteAtStart (dirs : RamdiskPath → Bool) : Kept p c (siteAtStart dirs) := by
  refine ⟨fun _ => rfl, fun channelId uri hc hu => ?_⟩
  have hu : Function.update (fun _ => none) [] (some []) channelId = some uri := hu
  rw [Function.update_of_ne hc] at hu
  cases hu

theorem serveStep_kept {r : SegmentRequest} {t : Site Disk} (hs : Kept p c s) (h : serveStep p c depth s r = some t) :
    Kept p c t := by
  obtain ⟨body, hb, hk, -⟩ := (serve_yields depth r hs).exists_ok
  unfold serveStep serve at h
  rw [hb] at h
  exact Option.some.inj h ▸ hk

/-- The sites of the runs. -/
theorem reach_kept {dirs : RamdiskPath → Bool} (h : Reach (serveStep p c depth) (fun _ _ => True) (siteAtStart dirs) s) :
    Kept p c s :=
  h.invariant (Kept p c) (kept_siteAtStart dirs) fun _ _ _ hk _ hs => serveStep_kept hk hs

theorem serve_body {r : SegmentRequest} (hs : Kept p c s) {body : TsStream} {h : Handler Disk}
    (hr : serve p c depth r s = .ok body h) (hb : body.flatten ≠ []) :
    body.flatten = produced p c r.channelId (source p c s r) := by
  have hy := serve_yields depth r hs
  unfold Yields at hy
  unfold serve at hr
  rw [hr] at hy
  exact hy.2 hb

/-- The bytes are the segment, encrypted with the key of its channel. -/
def Encrypted (p : Programs) (c : Config) (channelId seqId : Text) (bs : List Byte) : Prop :=
  ∃ key drmUrl ts, loadChannel p.drmlist channelId = some (key, drmUrl) ∧ transcode p c channelId seqId = some ts ∧
    bs = p.aes key ts

theorem workerKey_eq_some {channelId : Text} {key : List Byte} (h : workerKey p c channelId = some key) :
    ∃ drmUrl, loadChannel p.drmlist channelId = some (key, drmUrl) := by
  unfold workerKey at h
  split at h
  · split at h
    · obtain ⟨⟨k, drmUrl⟩, hk, rfl⟩ := Option.map_eq_some_iff.mp h
      exact ⟨drmUrl, hk⟩
    · cases h
  · cases h

/-- A segment is encrypted if and only if its worker has the key. -/
theorem produced_encrypted {channelId seqId : Text} (h : produced p c channelId seqId ≠ []) :
    Encrypted p c channelId seqId (produced p c channelId seqId) ↔ (workerKey p c channelId).isSome := by
  unfold produced at h ⊢
  cases ht : transcode p c channelId seqId with
  | none =>
    rw [ht] at h
    exact absurd rfl h
  | some ts =>
    cases hk : workerKey p c channelId with
    | none =>
      refine iff_of_false ?_ Bool.false_ne_true
      rintro ⟨key, _, ts', -, hts, he⟩
      obtain rfl : ts = ts' := Option.some.inj (ht.symm.trans hts)
      -- the padding makes the difference
      have hl : ts = p.aes key ts := he
      exact absurd (p.aes_length key ts) (hl ▸ Nat.lt_irrefl _)
    | some key =>
      obtain ⟨drmUrl, hd⟩ := workerKey_eq_some hk
      exact iff_of_true ⟨key, drmUrl, ts, hd, ht, rfl⟩ rfl

theorem workerKey_isSome {channelId : Text} : (workerKey p c channelId).isSome ↔
    c.method = .pptransfer ∧ c.protect = true ∧ (loadChannel p.drmlist channelId).isSome := by
  unfold workerKey
  cases c.method <;> cases c.protect <;> simp

/-! ## The playlist -/

theorem keyTag_isSome {protect : Bool} {channelDrm : ChannelDrm} {channelId : Text} :
    (keyTag protect channelDrm channelId).isSome ↔ protect = true ∧ (channelDrm channelId).isSome := by
  unfold keyTag formatKeyTag
  cases protect <;> simp

theorem keyTag_of_m3u8Builder {tag : Text → Option Text} {now : Nat} {host uri args : Text} {m : M3u8}
    (h : m3u8Builder tag now host uri args = some m) {channelId : Text}
    (hu : (parseUri uri).map M3uUri.channel = some channelId) : m.keyTag = tag channelId := by
  unfold m3u8Builder at h
  obtain ⟨u, hp, h⟩ := Option.bind_eq_some_iff.mp h
  rw [hp] at hu
  obtain rfl : u.channel = channelId := Option.some.inj hu
  split at h
  · cases h
  · exact Option.some.inj h ▸ rfl

/-- In every run, of every segment that is served. -/
theorem encryption_agrees {dirs : RamdiskPath → Bool}
    (hs : Reach (serveStep p c depth) (fun _ _ => True) (siteAtStart dirs) s) {r : SegmentRequest} {body : TsStream}
    {h : Handler Disk} (hr : serve p c depth r s = .ok body h) (hb : body.flatten ≠ []) {now : Nat} {host uri args : Text}
    {m : M3u8} (hm : m3u8Builder (keyTag c.protect (loadChannel p.drmlist)) now host uri args = some m)
    (hu : (parseUri uri).map M3uUri.channel = some r.channelId) :
    (m.keyTag.isSome ↔ Encrypted p c r.channelId (source p c s r) body.flatten) ↔
      ¬(c.protect = true ∧ (loadChannel p.drmlist r.channelId).isSome ∧ c.method = .ffmpeg) := by
  have hbody := serve_body (reach_kept hs) hr hb
  rw [keyTag_of_m3u8Builder hm hu, keyTag_isSome, hbody, produced_encrypted (hbody ▸ hb), workerKey_isSome]
  cases c.method <;> simp

end

/-! ## A channel with a key -/

def sampleKey : List Byte :=
  [0x00, 0x01, 0x02, 0x03, 0x04, 0x05, 0x06, 0x07, 0x08, 0x09, 0x0a, 0x0b, 0x0c, 0x0d, 0x0e, 0x0f]

/-- The cipher on the segment of the sample, and its padding alone on others. -/
def sampleAes (key bs : List Byte) : List Byte :=
  if key = sampleKey ∧ bs = [0x47] then
    [0x9d, 0x89, 0x36, 0xa6, 0x45, 0x46, 0xc7, 0x6e, 0x61, 0xcd, 0x81, 0xf0, 0x06, 0x8f, 0x7f, 0x0a]
  else bs ++ List.replicate (16 - bs.length % 16) 0

def samplePrograms : Programs where
  block _ _ := List.replicate 1401 0x46
  page := []
  pptransfer _ := some [0x47]
  ffmpeg _ := some [0x47]
  drmlist := [⟨['a', 'c', '9', '4'], sampleKey, []⟩]
  aes := sampleAes
  aes_length key bs := by
    unfold sampleAes
    split
    · rename_i h
      rw [h.2]
      decide
    · rw [List.length_append, List.length_replicate]
      omega

def sampleRequest : SegmentRequest := ⟨['a', 'c', '9', '4'], "1353923335".toList, tsRoute_firstUri⟩

def samplePlaylistUri : Text := "/live/5/60/ac94.m3u8".toList

theorem sample_served (c : Config) (hne : produced samplePrograms c ['a', 'c', '9', '4'] "1353923335".toList ≠ []) :
    ∃ body h, serve samplePrograms c 0 sampleRequest (siteAtStart fun _ => true) = .ok body h ∧
      body.flatten = produced samplePrograms c ['a', 'c', '9', '4'] "1353923335".toList := by
  obtain ⟨body, hb, hf, -⟩ := (@application_direct samplePrograms c (samplePrograms.answer c 1) _ _ _ tsRoute_firstUri hne _
    (kept_siteAtStart fun _ => true)).exists_ok
  exact ⟨body, _, hb, hf⟩

theorem sample_playlist (protect : Bool) : ∃ m,
    m3u8Builder (keyTag protect (loadChannel samplePrograms.drmlist)) 1353923339 [] samplePlaylistUri [] = some m := by
  have hu : parseUri samplePlaylistUri = some ⟨5, 60, ['a', 'c', '9', '4']⟩ := by decide +kernel
  rw [m3u8Builder, hu]
  exact ⟨_, rfl⟩

theorem encryption_agrees_sample : ∃ (body : TsStream) (h : Handler Disk) (m : M3u8),
    serve samplePrograms ⟨.pptransfer, false, true⟩ 0 sampleRequest (siteAtStart fun _ => true) = .ok body h ∧
    body.flatten = sampleAes sampleKey [0x47] ∧
    m3u8Builder (keyTag true (loadChannel samplePrograms.drmlist)) 1353923339 [] samplePlaylistUri [] = some m ∧
    ((m.keyTag.isSome ↔ Encrypted samplePrograms ⟨.pptransfer, false, true⟩ ['a', 'c', '9', '4']
        (source samplePrograms ⟨.pptransfer, false, true⟩ (siteAtStart fun _ => true) sampleRequest) body.flatten) ↔
      ¬(true = true ∧ (loadChannel samplePrograms.drmlist ['a', 'c', '9', '4']).isSome ∧ Method.pptransfer = .ffmpeg)) := by
  have hp : produced samplePrograms ⟨.pptransfer, false, true⟩ ['a', 'c', '9', '4'] "1353923335".toList =
      sampleAes sampleKey [0x47] := by decide +kernel
  have hne : sampleAes sampleKey [0x47] ≠ [] := by decide
  obtain ⟨body, h, hb, hf⟩ := sample_served ⟨.pptransfer, false, true⟩ (hp ▸ hne)
  obtain ⟨m, hm⟩ := sample_playlist true
  have hu : (parseUri samplePlaylistUri).map M3uUri.channel = some ['a', 'c', '9', '4'] := by decide +kernel
  exact ⟨body, h, m, hb, hf.trans hp, hm, encryption_agrees .start hb (hf.trans hp ▸ hne) hm hu⟩

/-- With `ffmpeg` the playlist has a key and the segment is plain. -/
theorem plain_segment_tagged : ∃ (body : TsStream) (h : Handler Disk) (m : M3u8),
    serve samplePrograms ⟨.ffmpeg, false, true⟩ 0 sampleRequest (siteAtStart fun _ => true) = .ok body h ∧
    body.flatten = [0x47] ∧
    m3u8Builder (keyTag true (loadChannel samplePrograms.drmlist)) 1353923339 [] samplePlaylistUri [] = some m ∧
    m.keyTag.isSome ∧
    ¬Encrypted samplePrograms ⟨.ffmpeg, false, true⟩ ['a', 'c', '9', '4'] "1353923335".toList body.flatten := by
  have hp : produced samplePrograms ⟨.ffmpeg, false, true⟩ ['a', 'c', '9', '4'] "1353923335".toList = [0x47] := by
    decide +kernel
  have hne : produced samplePrograms ⟨.ffmpeg, false, true⟩ ['a', 'c', '9', '4'] "1353923335".toList ≠ [] := by
    rw [hp]
    decide
  obtain ⟨body, h, hb, hf⟩ := sample_served ⟨.ffmpeg, false, true⟩ hne
  obtain ⟨m, hm⟩ := sample_playlist true
  have hu : (parseUri samplePlaylistUri).map M3uUri.channel = some ['a', 'c', '9', '4'] := by decide +kernel
  refine ⟨body, h, m, hb, hf.trans hp, hm, ?_, ?_⟩
  · rw [keyTag_of_m3u8Builder hm hu]
    decide +kernel
  · rw [hf, produced_encrypted hne, workerKey_isSome]
    decide

end XH.Proof.Vod
