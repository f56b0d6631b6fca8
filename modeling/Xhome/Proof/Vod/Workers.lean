import Xhome.Impl.Vod.Programs
import Xhome.Proof.Vod.Answers

/-!
# The workers of segments, with commands that succeed

On a ramdisk without files a worker returns the lines of `produced`, what its
transcoder makes of the block and `openssl` of that, and leaves no file
(`transcoded_yields`). The blocks that yield nothing are asked for again and
answered by their `verdict` (`untranscoded_verdict`).
-/

namespace XH.Proof.Vod

open XH.Impl.Vod XH.Raising

theorem readlines_flatten : ∀ bs : List Byte, (readlines bs).flatten = bs
  | [] => rfl
  | b :: bs => by
    have ih := readlines_flatten bs
    rw [readlines]
    split
    · rw [List.flatten_cons, ih]
      rfl
    · split
      · rename_i h
        rw [h] at ih
        rw [← ih]
        rfl
      · rename_i line lines h
        rw [h, List.flatten_cons] at ih
        rw [List.flatten_cons, List.cons_append, ih]

theorem head_readlines : ∀ {bs : List Byte}, bs ≠ [] → (readlines bs)[0]? = some (firstLine bs)
  | [b], _ => by
    rw [readlines, firstLine]
    split <;> rfl
  | b :: b' :: bs, _ => by
    have ih := head_readlines (List.cons_ne_nil b' bs)
    rw [readlines, firstLine]
    split
    · rfl
    · split
      · rename_i h
        rw [h] at ih
        cases ih
      · rename_i line lines h
        rw [h] at ih
        rw [← Option.some.inj ih]
        rfl

theorem total_eq (s : TsStream) : s.total = s.flatten.length := List.length_flatten.symm

/-! ## What a worker makes of a block -/

section
variable (p : Programs) (c : Config) (channelId seqId : Text)

/-- The output of the transcoder. -/
def transcode : Option (List Byte) :=
  match c.method with
  | .pptransfer => p.pptransfer (fetch p.page rangeFlv (p.block channelId seqId))
  | .ffmpeg => p.ffmpeg (fetch p.page rangeFlv (p.block channelId seqId))

/-- The key of the worker: `FfmpegWorker` has none. -/
def workerKey : Option (List Byte) :=
  match c.method with
  | .pptransfer => if c.protect then (loadChannel p.drmlist channelId).map Prod.fst else none
  | .ffmpeg => none

def encryptWith (key : Option (List Byte)) (ts : List Byte) : List Byte :=
  match key with
  | none => ts
  | some key => p.aes key ts

/-- The segment that the worker returns. -/
def produced : List Byte := ((transcode p c channelId seqId).map (encryptWith p (workerKey p c channelId))).getD []

end

/-- No file is left on the ramdisk. -/
def Clean (s : Site Disk) : Prop := ∀ path, s.files.files path = none

/-- The only file is `path`, which may be missing if it is empty. -/
def Holds (path : RamdiskPath) (bs : List Byte) (s : Site Disk) : Prop :=
  (s.files.files path).getD [] = bs ∧ ∀ q, q ≠ path → s.files.files q = none

section
variable {path q : RamdiskPath} {content : Option (List Byte)} {s : Site Disk}

@[simp] theorem put_self : (s.put path content).files.files path = content := Function.update_self ..

theorem put_of_ne (h : q ≠ path) : (s.put path content).files.files q = s.files.files q := Function.update_of_ne h ..

theorem put_none (h : s.files.files path = none) : s.put path none = s := by
  have hf : Function.update s.files.files path none = s.files.files := Function.update_eq_self_iff.mpr h.symm
  unfold Site.put
  rw [hf]

theorem clean_put (hs : ∀ q, q ≠ path → s.files.files q = none) : Clean (s.put path none) := by
  intro q
  by_cases hq : q = path
  · rw [hq, put_self]
  · rw [put_of_ne hq, hs q hq]

/-- A file that may be there is gone. -/
theorem remove_yields {Q : Option Unit → Site Disk → Prop} {E : Unit → Site Disk → Prop} (hq : ∀ a, Q a (s.put path none)) :
    Yields (attempt (removeFile path)) s Q E := by
  unfold removeFile
  rw [yields_attempt, yields_bind, yields_get]
  cases h : s.files.files path with
  | none => exact put_none h ▸ hq none
  | some bs => exact hq (some ())

end

section
variable {p : Programs} {c : Config} {ask : Text → EStateM Unit (Site Disk) (List Byte)} {channelId seqId : Text}

theorem makeDir_yields (path : RamdiskPath) (s : Site Disk) :
    Yields (makeDir (p.outside ask) path) s
      (fun _ t => t.files.files = s.files.files ∧ t.lastTsUri = s.lastTsUri) fun _ _ => False := by
  unfold makeDir
  rw [yields_bind, yields_get, yields_ite]
  split
  · exact ⟨rfl, rfl⟩
  · rename_i h
    have hd : s.files.dirs path = false := by
      have h : ¬(s.files.dirs path || (s.files.files path).isSome) = true := h
      rw [Bool.or_eq_true, not_or] at h
      exact Bool.eq_false_iff.mpr h.1
    show Yields (do
      if (← get).files.dirs path then throw ()
      modify fun s => { s with files.dirs := Function.update s.files.dirs path true } : EStateM Unit (Site Disk) Unit) s _ _
    rw [yields_bind, yields_get, hd]
    exact ⟨rfl, rfl⟩

theorem closeFile_yields {tsFp : Option File} (h : ∀ f, tsFp = some f → f.closes = true) {s : Site Disk}
    {Q : Unit → Site Disk → Prop} {E : Unit → Site Disk → Prop} : Yields (closeFile tsFp) s Q E ↔ Q () s := by
  cases tsFp with
  | none => rfl
  | some f =>
    show Yields (if f.closes then pure () else throw ()) s Q E ↔ _
    rw [if_pos (h f rfl)]
    rfl

theorem openFile_closes (path : RamdiskPath) (s : Site Disk) :
    ∀ f, (p.outside ask).openFile path s = some f → f.closes = true := by
  intro f hf
  obtain ⟨bs, -, rfl⟩ := Option.map_eq_some_iff.mp hf
  rfl

theorem openFile_lines (path : RamdiskPath) (s : Site Disk) :
    ((p.outside ask).openFile path s).bind File.lines = (s.files.files path).map readlines := by
  show ((s.files.files path).map fun bs => File.mk (some (readlines bs)) true).bind File.lines = _
  cases s.files.files path <;> rfl

theorem getD_readlines (a : Option (List Byte)) : (a.map readlines).getD [] = readlines (a.getD []) := by
  cases a <;> rfl

/-- `RamdiskWorker`, by what its command leaves. -/
theorem ramdiskWorker_yields {streamCmd : RamdiskPath → Command} {s : Site Disk} (hs : Clean s) {bs : List Byte}
    {K : (Text → Option Text) → Prop}
    (hcmd : ∀ t, Clean t → t.lastTsUri = s.lastTsUri → Yields (p.system ask (streamCmd (.ts channelId seqId))) t
      (fun _ u => Holds (.ts channelId seqId) bs u ∧ K u.lastTsUri) fun _ _ => False) :
    Yields (ramdiskWorker (p.outside ask) streamCmd channelId seqId) s
      (fun stream u => stream = readlines bs ∧ Clean u ∧ K u.lastTsUri) fun _ _ => False := by
  unfold ramdiskWorker
  apply (makeDir_yields _ s).seq
  rintro _ t ⟨hf, hd⟩
  refine (hcmd t (fun q => by rw [hf]; exact hs q) hd).seq fun _ u ⟨⟨hu, hq⟩, hK⟩ => ?_
  rw [yields_bind, yields_get]
  rw [yields_bind, closeFile_yields (openFile_closes _ u), yields_bind]
  refine remove_yields fun _ => ⟨?_, clean_put hq, hK⟩
  rw [openFile_lines, getD_readlines, hu]

theorem output_holds {path : RamdiskPath} (out : Option (List Byte)) {s : Site Disk} (hs : Clean s)
    {K : (Text → Option Text) → Prop} (hK : K s.lastTsUri) :
    Yields (Programs.output path out) s (fun _ t => Holds path (out.getD []) t ∧ K t.lastTsUri) fun _ _ => False := by
  cases out with
  | none => exact ⟨⟨congrArg (Option.getD · []) (hs path), fun q _ => hs q⟩, hK⟩
  | some bs =>
    show Holds path bs (s.put path (some bs)) ∧ _
    exact ⟨⟨congrArg (Option.getD · []) put_self, fun q hq => (put_of_ne hq).trans (hs q)⟩, hK⟩

/-! ## `PpboxSDKWorker` -/

/-- The files of a segment, its `ts` as given. -/
structure Downloaded (channelId seqId : Text) (ts : Option (List Byte)) (s : Site Disk) : Prop where
  flv : (s.files.files (.flv channelId seqId)).isSome
  ts : s.files.files (.ts channelId seqId) = ts
  rest : ∀ q, q ≠ .flv channelId seqId → q ≠ .ts channelId seqId → s.files.files q = none

theorem pptransfer_yields {s : Site Disk} (hs : Clean s) :
    Yields (p.system ask (.pptransfer (.block rangeFlv channelId seqId) (.flv channelId seqId) (.ts channelId seqId))) s
      (fun _ t => Downloaded channelId seqId (p.pptransfer (fetch p.page rangeFlv (p.block channelId seqId))) t ∧
        t.lastTsUri = s.lastTsUri) fun _ _ => False := by
  have hne : RamdiskPath.ts channelId seqId ≠ .flv channelId seqId := RamdiskPath.noConfusion
  show Yields (storeFile _ _ >>= fun _ => Programs.output _ _) s _ _
  rw [yields_bind, storeFile, yields_modify]
  cases p.pptransfer (fetch p.page rangeFlv (p.block channelId seqId)) with
  | none =>
    refine ⟨⟨by rw [put_self]; rfl, ?_, fun q h₁ _ => ?_⟩, rfl⟩
    · rw [put_of_ne hne, hs]
    · rw [put_of_ne h₁, hs]
  | some ts =>
    show _ ∧ _
    refine ⟨⟨?_, put_self, fun q h₁ h₂ => ?_⟩, rfl⟩
    · rw [put_of_ne hne.symm, put_self]
      rfl
    · rw [put_of_ne h₂, put_of_ne h₁, hs]

theorem Downloaded.seal {ts : Option (List Byte)} {s t : Site Disk} (hs : Downloaded channelId seqId ts s)
    {f : List Byte → List Byte} (hts : t.files.files (.ts channelId seqId) = ts.map f)
    (hq : ∀ q, q ≠ .ts channelId seqId → t.files.files q = s.files.files q) : Downloaded channelId seqId (ts.map f) t := by
  have hne : RamdiskPath.flv channelId seqId ≠ .ts channelId seqId := RamdiskPath.noConfusion
  exact ⟨hq _ hne ▸ hs.flv, hts, fun q h₁ h₂ => (hq q h₂).trans (hs.rest q h₁ h₂)⟩

/-- `openssl` on the file that has been downloaded. -/
theorem openssl_yields (key : List Byte) {ts : Option (List Byte)} {s : Site Disk} (hs : Downloaded channelId seqId ts s) :
    Yields (p.system ask (.openssl (.ts channelId seqId) (.raw channelId seqId) key)) s
      (fun _ t => Downloaded channelId seqId (ts.map (p.aes key)) (t.put (.raw channelId seqId) none) ∧
        t.lastTsUri = s.lastTsUri) fun _ _ => False := by
  have hraw : s.files.files (.raw channelId seqId) = none := hs.rest _ RamdiskPath.noConfusion RamdiskPath.noConfusion
  have hne : RamdiskPath.ts channelId seqId ≠ .raw channelId seqId := RamdiskPath.noConfusion
  show Yields (match s.files.files (.ts channelId seqId) with
    | none => return 1
    | some bs => do
      removeFile (.ts channelId seqId)
      storeFile (.raw channelId seqId) bs
      Programs.output (.ts channelId seqId) (some (p.aes key bs)) : EStateM Unit (Site Disk) Int) s _ _
  cases ts with
  | none =>
    rw [hs.ts]
    refine ⟨?_, rfl⟩
    rw [put_none hraw]
    exact hs
  | some bs =>
    rw [hs.ts]
    show Yields (removeFile _ >>= fun _ => storeFile _ bs >>= fun _ => Programs.output _ _) s _ _
    rw [yields_bind, removeFile, yields_bind, yields_get, hs.ts]
    show Downloaded _ _ _ ((((s.put (.ts channelId seqId) none).put (.raw channelId seqId) (some bs)).put (.ts channelId seqId)
      (some (p.aes key bs))).put (.raw channelId seqId) none) ∧ _
    refine ⟨hs.seal (f := p.aes key) ?_ fun q hq => ?_, rfl⟩
    · rw [put_of_ne hne, put_self]
      rfl
    · by_cases hr : q = .raw channelId seqId
      · rw [hr, put_self, hraw]
      · rw [put_of_ne hr, put_of_ne hq, put_of_ne hr, put_of_ne hq]

theorem encryptMpegts_yields {channelDrm : ChannelDrm} {ts : Option (List Byte)} {s : Site Disk}
    (hs : Downloaded channelId seqId ts s) :
    Yields (attempt (encryptMpegts (p.outside ask) channelDrm channelId seqId)) s
      (fun _ t => Downloaded channelId seqId (ts.map (encryptWith p ((channelDrm channelId).map Prod.fst))) t ∧
        t.lastTsUri = s.lastTsUri) fun _ _ => False := by
  unfold encryptMpegts
  rw [yields_attempt, yields_bind]
  cases channelDrm channelId with
  | none =>
    -- the exception is swallowed
    refine ⟨?_, rfl⟩
    show Downloaded _ _ (ts.map fun ts => ts) s
    rw [Option.map_id']
    exact hs
  | some k =>
    obtain ⟨key, drmUrl⟩ := k
    rw [orRaise, yields_pure]
    have hkey := @openssl_yields p ask channelId seqId key ts s hs
    apply hkey.total.seq
    intro _ t ht
    rw [yields_bind]
    exact remove_yields fun _ => ht

theorem transfer_yields (hm : c.method = .pptransfer) {s : Site Disk} (hs : Clean s) :
    Yields (transfer c (p.outside ask) (.block rangeFlv channelId seqId) channelId seqId) s
      (fun e t => e.isSome ∧ Downloaded channelId seqId
        ((transcode p c channelId seqId).map (encryptWith p (workerKey p c channelId))) t ∧ t.lastTsUri = s.lastTsUri)
      fun _ _ => False := by
  have hts : transcode p c channelId seqId = p.pptransfer (fetch p.page rangeFlv (p.block channelId seqId)) := by
    unfold transcode
    rw [hm]
  have hkey : workerKey p c channelId = if c.protect then (loadChannel p.drmlist channelId).map Prod.fst else none := by
    unfold workerKey
    rw [hm]
  unfold transfer
  rw [hts, hkey, yields_bind, yields_attempt]
  apply (pptransfer_yields hs).imp
  rintro e t ⟨ht, hd⟩
  show Yields (if c.protect = true then _ else _) t _ _
  by_cases hp : c.protect = true
  · rw [if_pos hp, if_pos hp]
    exact (encryptMpegts_yields ht).seq fun _ u ⟨hu, hd'⟩ => ⟨rfl, hu, hd'.trans hd⟩
  · rw [if_neg hp, if_neg hp]
    refine ⟨rfl, ?_, hd⟩
    show Downloaded _ _ ((p.pptransfer (fetch p.page rangeFlv (p.block channelId seqId))).map fun ts => ts) t
    rw [Option.map_id']
    exact ht

/-- Nothing that the request reads is changed. -/
def Untouched (s t : Site Disk) : Prop := t.files.files = s.files.files ∧ t.lastTsUri = s.lastTsUri

theorem keepFailed_yields {exitStatus : Option Int} (he : exitStatus.isSome) {ts : Option (List Byte)} {s : Site Disk}
    (hs : Downloaded channelId seqId ts s) :
    Yields (keepFailed c (p.outside ask) exitStatus channelId seqId) s (fun _ => Untouched s) fun _ _ => False := by
  obtain ⟨e, rfl⟩ := Option.isSome_iff_exists.mp he
  obtain ⟨bs, hbs⟩ := Option.isSome_iff_exists.mp hs.flv
  have hsize : (p.outside ask).getsize (.flv channelId seqId) s = some bs.length := by
    show (s.files.files (.flv channelId seqId)).map List.length = _
    rw [hbs]
    rfl
  have hkept : Yields (attempt do
      makeDir (p.outside ask) .failed
      (p.outside ask).system (.cp (.flv channelId seqId) .failed)) s (fun _ => Untouched s) fun _ _ => False := by
    rw [yields_attempt]
    exact (makeDir_yields _ s).total.seq fun _ t ht => ht
  unfold keepFailed
  rw [yields_bind, yields_get, yields_ite]
  split
  · rw [yields_bind, yields_get, hsize]
    show Yields (if 2048 < bs.length then _ else _) s _ _
    rw [yields_ite]
    split
    · show Yields (if c.bakFailedTs = true then _ else _) s _ _
      rw [yields_ite]
      split
      · exact hkept.seq fun _ _ h => h
      · exact ⟨rfl, rfl⟩
    · exact ⟨rfl, rfl⟩
  · exact ⟨rfl, rfl⟩

theorem ppboxSDKWorker_yields (hm : c.method = .pptransfer) {s : Site Disk} (hs : Clean s) :
    Yields (ppboxSDKWorker c (p.outside ask) (.block rangeFlv channelId seqId) channelId seqId) s
      (fun stream t => stream = readlines (produced p c channelId seqId) ∧ Clean t ∧ t.lastTsUri = s.lastTsUri)
      fun _ _ => False := by
  unfold ppboxSDKWorker
  apply (makeDir_yields _ s).seq
  rintro _ t ⟨hf, hd⟩
  have ht : Clean t := fun q => by rw [hf, hs]
  apply (transfer_yields hm ht).seq
  rintro e u ⟨he, hu, hd'⟩
  rw [yields_bind, yields_get]
  -- the last steps, with or without a stream
  have hlast (v : Site Disk) (hv : Untouched u v) : Yields (do
      closeFile ((p.outside ask).openFile (.ts channelId seqId) u)
      let _ ← attempt (removeFile (.flv channelId seqId))
      let _ ← attempt (removeFile (.ts channelId seqId))
      return (((p.outside ask).openFile (.ts channelId seqId) u).bind File.lines).getD [] :
        EStateM Unit (Site Disk) TsStream) v
        (fun stream t => stream = readlines (produced p c channelId seqId) ∧ Clean t ∧ t.lastTsUri = s.lastTsUri)
        fun _ _ => False := by
    rw [yields_bind, closeFile_yields (openFile_closes _ u), yields_bind]
    apply remove_yields
    intro _
    rw [yields_bind]
    refine remove_yields fun _ => ⟨?_, clean_put fun q hq => ?_, ?_⟩
    · rw [openFile_lines, getD_readlines, hu.ts]
      rfl
    · by_cases h : q = .flv channelId seqId
      · rw [h, put_self]
      · rw [put_of_ne h, hv.1, hu.rest q h hq]
    · exact hv.2.trans (hd'.trans hd)
  show Yields (if _ then _ else _) u _ _
  rw [yields_ite]
  split
  · exact (keepFailed_yields he hu).seq fun _ v hv => hlast v hv
  · exact hlast u ⟨rfl, rfl⟩

theorem transcoded_yields {s : Site Disk} (hs : Clean s) : Yields (transcoded c (p.outside ask) channelId seqId) s
    (fun stream t => stream = readlines (produced p c channelId seqId) ∧ Clean t ∧ t.lastTsUri = s.lastTsUri)
    fun _ _ => False := by
  unfold transcoded
  cases hm : c.method with
  | pptransfer => exact ppboxSDKWorker_yields hm hs
  | ffmpeg =>
    show Yields (ramdiskWorker (p.outside ask) (.ffmpeg (.block rangeFlv channelId seqId)) channelId seqId) s _ _
    refine ramdiskWorker_yields (K := fun d => d = s.lastTsUri) hs fun t ht hd => ?_
    have hts : produced p c channelId seqId = (p.ffmpeg (fetch p.page rangeFlv (p.block channelId seqId))).getD [] := by
      unfold produced transcode workerKey
      rw [hm]
      show (Option.map (fun ts => ts) _).getD [] = _
      rw [Option.map_id']
    rw [hts]
    show Yields (Programs.output (.ts channelId seqId) (p.ffmpeg (fetch p.page rangeFlv (p.block channelId seqId)))) t _ _
    exact output_holds (K := fun d => d = s.lastTsUri) _ ht hd

theorem streamWorker_block {range : Range} {s : Site Disk} (hs : Clean s) :
    Yields (streamWorker (p.outside ask) (.block range channelId seqId) channelId seqId) s
      (fun stream t => stream = readlines (fetch p.page range (p.block channelId seqId)) ∧ Clean t ∧
        t.lastTsUri = s.lastTsUri) fun _ _ => False := by
  refine ramdiskWorker_yields (K := fun d => d = s.lastTsUri) hs fun t ht hd => ?_
  exact output_holds (K := fun d => d = s.lastTsUri) (some (fetch p.page range (p.block channelId seqId))) ht hd

theorem streamWorker_ts {uri : Text} {s : Site Disk} (hs : Clean s) {bs : List Byte} {K : (Text → Option Text) → Prop}
    (hask : ∀ t, Clean t → t.lastTsUri = s.lastTsUri →
      Yields (ask uri) t (fun bs' u => bs' = bs ∧ Clean u ∧ K u.lastTsUri) fun _ _ => False) :
    Yields (streamWorker (p.outside ask) (.ts uri) channelId seqId) s
      (fun stream t => stream = readlines bs ∧ Clean t ∧ K t.lastTsUri) fun _ _ => False := by
  apply ramdiskWorker_yields hs
  intro t ht hd
  apply (hask t ht hd).seq
  rintro bs' u ⟨hb, hu, hK⟩
  rw [← hb]
  exact output_holds (some bs') hu hK

/-- A block that could not be transcoded is answered by its verdict; only for a hold block an exception is possible. -/
theorem untranscoded_verdict {h : Handler Disk} (hh : Clean h.site)
    (hflv : fetch p.page rangeFlv (p.block channelId seqId) ≠ [])
    (hhold : fetch p.page rangeHold (p.block channelId seqId) ≠ []) :
    Yields (untranscoded (p.outside ask) channelId seqId) h
      (fun r _ => r = if verdict p.page (p.block channelId seqId) = .notFound then notFound else replaced)
      fun _ _ => verdict p.page (p.block channelId seqId) = .holdBlock := by
  have hline (range : Range) (hne : fetch p.page range (p.block channelId seqId) ≠ []) {t : Handler Disk} (ht : Clean t.site)
      {E : Unit → Handler Disk → Prop} :
      Yields (onSite (streamWorker (p.outside ask) (.block range channelId seqId) channelId seqId)) t
        (fun stream u => stream[0]? = some (firstLine (fetch p.page range (p.block channelId seqId))) ∧ Clean u.site) E :=
    (yields_focus _).mpr ((streamWorker_block ht).imp fun _ _ hu => ⟨hu.1 ▸ head_readlines hne, hu.2.1⟩)
  unfold untranscoded verdict
  apply (hline _ hflv hh).seq
  intro stream t ht
  rw [ht.1, orRaise, pure_bind, yields_ite]
  split
  · apply (hline _ hhold ht.2).seq
    intro stream u hu
    rw [hu.1, orRaise, pure_bind]
    show Yields (if _ then _ else _) u _ _
    rw [yields_ite]
    split
    · exact (Yields.of_forall (Q := fun _ _ => True) (fun _ _ => trivial) fun _ _ => rfl).seq fun _ _ _ => rfl
    · exact rfl
  · exact rfl

end

end XH.Proof.Vod
