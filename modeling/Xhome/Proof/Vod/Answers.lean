import Xhome.Impl.Vod.Application

/-!
# What a request for a segment is answered

Behind the first stream of a request `ts_stream` is bound, and no exception
leaves `application` any more: `respond_bound`. An exception of the worker
itself is answered by a 502 whose body is not bound. So a request is answered
if and only if its worker returns, which `Transcodable` says of the outcomes of
its steps.
-/

namespace XH.Proof.Vod

open XH.Impl.Vod XH.Pattern XH.Raising

/-! ## The URI -/

/-- What the route admits. -/
theorem eq_of_tsRoute {uri channelId seqId : Text} (h : tsRoute uri = some (channelId, seqId)) :
    ∃ t, uri = '/' :: 'l' :: 'i' :: 'v' :: 'e' :: '/' :: (channelId ++ '/' :: (seqId ++ t)) ∧ channelId ≠ [] ∧
      '/' ∉ channelId ∧ '/' ∉ seqId ∧ seqId.length = 10 := by
  obtain ⟨gs, h₀, he⟩ := Option.map_eq_some_iff.mp h
  obtain ⟨s₁, rfl, h₁⟩ := eq_of_groups_text h₀
  obtain ⟨w, s₂, gs₁, hne, hw, rfl, rfl, h₂⟩ := eq_of_groups_plus h₁
  obtain ⟨s₃, rfl, h₃⟩ := eq_of_groups_text (w := ['/']) h₂
  obtain ⟨v, s₄, gs₂, hv, hvd, rfl, rfl, h₄⟩ := eq_of_groups_times h₃
  obtain ⟨u, t, gs₃, hu, hud, rfl, rfl, -⟩ := eq_of_groups_times h₄
  obtain ⟨rfl, rfl⟩ : w = channelId ∧ v ++ u = seqId := Prod.mk.inj he
  refine ⟨t, by rw [List.append_assoc]; rfl, hne, fun hc => ?_, fun hc => ?_, by rw [List.length_append, hv, hu]⟩
  · exact absurd (hw '/' hc) (by decide)
  · rcases List.mem_append.mp hc with hc | hc
    · exact absurd (hvd '/' hc) (by decide)
    · exact absurd (hud '/' hc) (by decide)

variable {τ : Type} {c : Config} {o : Outside τ} {channelId seqId : Text}

/-- `application` finds the channel and the id. -/
theorem application_eq {uri : Text} (h : tsRoute uri = some (channelId, seqId)) : application c o uri = (do
    let response ← tryCatch (respond c o uri channelId seqId) fun _ => return badGateway
    modify fun h => { h with started := h.started ++ [response] }
    orRaise (← get).tsStream) := by
  obtain ⟨t, rfl, -, hc, hs, hl⟩ := eq_of_tsRoute h
  have hsplit : ('/' :: 'l' :: 'i' :: 'v' :: 'e' :: '/' :: (channelId ++ '/' :: (seqId ++ t))).splitOn '/' =
      [] :: ['l', 'i', 'v', 'e'] :: channelId :: (t.splitOn '/').modifyHead (seqId ++ ·) := by
    have h₁ := splitOn_part (List.not_mem_nil (a := '/'))
      ('l' :: 'i' :: 'v' :: 'e' :: '/' :: (channelId ++ '/' :: (seqId ++ t)))
    have h₂ := splitOn_part (w := ['l', 'i', 'v', 'e']) (c := '/') (by decide) (channelId ++ '/' :: (seqId ++ t))
    rw [List.nil_append] at h₁
    rw [h₁]
    refine congrArg ([] :: ·) (h₂.trans (congrArg _ ?_))
    rw [splitOn_part hc, splitOn_append hs]
  obtain ⟨w, ws, hw⟩ : ∃ w ws, t.splitOn '/' = w :: ws := List.exists_cons_of_ne_nil (List.splitOn_ne_nil '/' t)
  have htake : (seqId ++ w).take 10 = seqId := by rw [← hl, List.take_left]
  have h₂ : (([] : Text) :: ['l', 'i', 'v', 'e'] :: channelId :: (seqId ++ w) :: ws)[2]? = some channelId := rfl
  have h₃ : (([] : Text) :: ['l', 'i', 'v', 'e'] :: channelId :: (seqId ++ w) :: ws)[3]? = some (seqId ++ w) := rfl
  unfold application
  rw [hsplit, hw, List.modifyHead_cons]
  simp only [h₂, h₃, orRaise, pure_bind, htake]

/-! ## The workers -/

theorem returns_makeDir {path : RamdiskPath} {s : Site τ} :
    Returns (makeDir o path) s ↔ o.pathExists path s = true ∨ Returns (o.mkdir path) s := by
  unfold makeDir Returns
  rw [yields_bind, yields_get, yields_ite]
  by_cases h : o.pathExists path s = true
  · rw [if_pos h]
    exact iff_of_true trivial (.inl h)
  · rw [if_neg h]
    exact (or_iff_right h).symm

theorem returns_closeFile {tsFp : Option File} {s : Site τ} :
    Returns (closeFile tsFp) s ↔ ∀ f, tsFp = some f → f.closes = true := by
  cases tsFp with
  | none => exact iff_of_true trivial fun f h => nomatch h
  | some f =>
    unfold closeFile Returns
    rw [yields_ite]
    by_cases h : f.closes = true
    · rw [if_pos h]
      exact iff_of_true trivial fun g hg => Option.some.inj hg ▸ h
    · rw [if_neg h]
      exact iff_of_false id fun hall => h (hall f rfl)

/-- What a command needs that leaves the stream in a file, the directory of the channel there. -/
structure Piped (o : Outside τ) (cmd : Command) (file : RamdiskPath) (s : Site τ) : Prop where
  system : Returns (o.system cmd) s
  closes : ∀ f, o.openFile file (leaves (o.system cmd) s) = some f → f.closes

/-- What `pptransfer` needs, its command run in `s` and its files read in `t`: one that
cannot be read must not hide another exception. -/
structure Transferred (o : Outside τ) (streamCmd : StreamCmd) (channelId seqId : Text) (s t : Site τ) : Prop where
  closes : ∀ f, o.openFile (.ts channelId seqId) t = some f → f.closes
  kept : ((o.openFile (.ts channelId seqId) t).bind File.lines).isNone → o.pathExists (.flv channelId seqId) t →
    ∃ size, o.getsize (.flv channelId seqId) t = some size ∧
      (2048 < size → Returns (o.system (.pptransfer streamCmd (.flv channelId seqId) (.ts channelId seqId))) s)

/-- The directory of the channel is there, or can be made. -/
def DirReady (o : Outside τ) (channelId : Text) (s : Site τ) : Prop :=
  o.pathExists (.channel channelId) s = true ∨ Returns (o.mkdir (.channel channelId)) s

theorem returns_ramdiskWorker {streamCmd : RamdiskPath → Command} {s : Site τ} :
    Returns (ramdiskWorker o streamCmd channelId seqId) s ↔
      DirReady o channelId s ∧
        Piped o (streamCmd (.ts channelId seqId)) (.ts channelId seqId) (leaves (makeDir o (.channel channelId)) s) := by
  have hlast (f : Option File) (t : Site τ) : Returns (do
      closeFile f
      let _ ← attempt (o.remove (.ts channelId seqId))
      return (f.bind File.lines).getD [] : EStateM Unit (Site τ) TsStream) t ↔ ∀ f', f = some f' → f'.closes = true := by
    rw [returns_seq, returns_closeFile, and_iff_left]
    exact (returns_seq _).mpr ⟨returns_attempt, returns_pure _⟩
  unfold ramdiskWorker
  rw [returns_seq, returns_makeDir, returns_seq, returns_get, hlast]
  exact and_congr_right fun _ => ⟨fun h => ⟨h.1, h.2⟩, fun h => ⟨h.system, h.closes⟩⟩

theorem returns_keepFailed {exitStatus : Option Int} {s : Site τ} :
    Returns (keepFailed c o exitStatus channelId seqId) s ↔
      (o.pathExists (.flv channelId seqId) s →
        ∃ size, o.getsize (.flv channelId seqId) s = some size ∧ (2048 < size → exitStatus.isSome)) := by
  unfold keepFailed
  rw [returns_get]
  by_cases hp : o.pathExists (.flv channelId seqId) s = true
  · rw [if_pos hp, returns_get]
    cases hg : o.getsize (.flv channelId seqId) s with
    | none => exact iff_of_false id fun h => nomatch h hp
    | some size =>
      show Returns (if 2048 < size then _ else _) s ↔ _
      by_cases hn : 2048 < size
      · rw [if_pos hn]
        have hback : Returns (do
            let _ ← orRaise exitStatus
            if c.bakFailedTs then
              let _ ← attempt do
                makeDir o .failed
                o.system (.cp (.flv channelId seqId) .failed) : EStateM Unit (Site τ) Unit) s ↔ exitStatus.isSome := by
          rw [returns_seq, returns_orRaise, and_iff_left]
          split
          · exact (returns_seq _).mpr ⟨returns_attempt, returns_pure _⟩
          · exact returns_pure _
        rw [hback]
        exact ⟨fun h _ => ⟨size, rfl, fun _ => h⟩, fun h => by
          obtain ⟨size', he, h⟩ := h hp
          exact h (Option.some.inj he ▸ hn)⟩
      · rw [if_neg hn]
        exact iff_of_true trivial fun _ => ⟨size, rfl, fun h => absurd h hn⟩
  · rw [if_neg hp]
    exact iff_of_true trivial fun h => absurd h hp

/-- `transfer` raises nothing, and `exit_status` is bound if its command has returned. -/
theorem transfer_apply (c : Config) (o : Outside τ) (channelId seqId : Text) (streamCmd : StreamCmd) (s : Site τ) :
    ∃ e, transfer c o streamCmd channelId seqId s = .ok e (leaves (transfer c o streamCmd channelId seqId) s) ∧
      (e.isSome ↔ Returns (o.system (.pptransfer streamCmd (.flv channelId seqId) (.ts channelId seqId))) s) := by
  have hrest (e : Option Int) (t : Site τ) : Yields (do
      if e.isSome && c.protect then
        let _ ← attempt do
          let channelDrm ← o.drmWorker
          encryptMpegts o channelDrm channelId seqId
      return e) t (fun e' _ => e' = e) fun _ _ => False := by
    rw [yields_ite]
    split
    · rw [yields_bind, yields_attempt]
      exact yields_state.mpr rfl
    · exact rfl
  refine Yields.exists_ok (Q := fun (e : Option Int) _ => e.isSome ↔
    Returns (o.system (.pptransfer streamCmd (.flv channelId seqId) (.ts channelId seqId))) s) ?_
  unfold transfer
  exact attempt_isSome.seq fun e t h => (hrest e t).imp fun _ _ he => he ▸ h

theorem returns_ppboxSDKWorker {streamCmd : StreamCmd} {s t : Site τ}
    (ht : t = leaves (makeDir o (.channel channelId)) s) : Returns (ppboxSDKWorker c o streamCmd channelId seqId) s ↔
      DirReady o channelId s ∧
        Transferred o streamCmd channelId seqId t (leaves (transfer c o streamCmd channelId seqId) t) := by
  have hlast (f : Option File) (t : Site τ) : Returns (do
      closeFile f
      let _ ← attempt (o.remove (.flv channelId seqId))
      let _ ← attempt (o.remove (.ts channelId seqId))
      return (f.bind File.lines).getD [] : EStateM Unit (Site τ) TsStream) t ↔ ∀ f', f = some f' → f'.closes = true := by
    rw [returns_seq, returns_closeFile, and_iff_left]
    exact (returns_seq _).mpr ⟨returns_attempt, (returns_seq _).mpr ⟨returns_attempt, returns_pure _⟩⟩
  unfold ppboxSDKWorker
  rw [returns_seq, returns_makeDir]
  apply and_congr_right
  intro _
  obtain ⟨e, he, hiff⟩ := transfer_apply c o channelId seqId streamCmd t
  rw [← ht, returns_bind_ok he, returns_get]
  show Returns (if _ then _ else _) _ ↔ _
  split
  · rename_i hn
    rw [returns_seq, hlast, returns_keepFailed, hiff]
    exact ⟨fun h => ⟨h.2, fun _ => h.1⟩, fun h => ⟨h.kept hn, h.closes⟩⟩
  · rename_i hn
    exact (hlast _ _).trans ⟨fun h => ⟨h, fun h' => absurd h' hn⟩, fun h => h.closes⟩

/-- The outcomes of the first worker's steps with which it returns. -/
def Transcodable (c : Config) (o : Outside τ) (channelId seqId : Text) (s : Site τ) : Prop :=
  let t := leaves (makeDir o (.channel channelId)) s
  let curl := .block rangeFlv channelId seqId
  DirReady o channelId s ∧
    match c.method with
    | .pptransfer => Transferred o curl channelId seqId t (leaves (transfer c o curl channelId seqId) t)
    | .ffmpeg => Piped o (.ffmpeg curl (.ts channelId seqId)) (.ts channelId seqId) t

theorem returns_transcoded {s : Site τ} :
    Returns (transcoded c o channelId seqId) s ↔ Transcodable c o channelId seqId s := by
  unfold transcoded Transcodable
  cases c.method with
  | pptransfer => exact returns_ppboxSDKWorker rfl
  | ffmpeg => exact returns_ramdiskWorker

/-! ## The handler -/

/-- `ts_stream` is bound, and `start_response` has not been called yet. -/
structure Bound (h : Handler τ) : Prop where
  tsStream : h.tsStream.isSome
  started : h.started = []

def Undeclared (response : Response) : Prop := ∀ n, ("Content-Length", n) ∉ response.headers

section
variable {h : Handler τ}

theorem onSite_bound {α : Type} {m : EStateM Unit (Site τ) α} (hh : Bound h) :
    Yields (onSite m) h (fun _ => Bound) fun _ => Bound :=
  (yields_focus m).mpr (.of_forall (fun _ _ => ⟨hh.tsStream, hh.started⟩) fun _ _ => ⟨hh.tsStream, hh.started⟩)

theorem bindStream_bound {m : EStateM Unit (Site τ) TsStream} (hh : Bound h) :
    Yields (bindStream m) h (fun _ => Bound) fun _ => Bound :=
  (onSite_bound hh).seq fun _ _ ht => ⟨rfl, ht.started⟩

theorem orRaise_bound {α : Type} (a : Option α) (hh : Bound h) : Yields (orRaise a) h (fun _ => Bound) fun _ => Bound :=
  .of_orRaise a (fun _ => hh) hh

theorem substitute_bound (hh : Bound h) : Yields (substitute o channelId seqId) h (fun _ => Bound) fun _ => Bound := by
  unfold substitute
  rw [yields_bind, yields_get]
  refine (orRaise_bound _ hh).seq fun _ _ h₁ => (bindStream_bound h₁).seq fun _ _ h₂ => ?_
  rw [yields_bind, yields_get]
  exact (orRaise_bound _ h₂).seq fun _ _ h₃ => h₃

theorem undeclared_of_not_mem {response : Response} (h : "Content-Length" ∉ response.headers.map Prod.fst) :
    Undeclared response :=
  fun _ hn => h (List.mem_map_of_mem hn)

theorem untranscoded_bound (hh : Bound h) :
    Yields (untranscoded o channelId seqId) h (fun r t => Bound t ∧ Undeclared r) fun _ => Bound := by
  have hr : Undeclared replaced := undeclared_of_not_mem (by decide)
  have hn : Undeclared notFound := undeclared_of_not_mem (by decide)
  unfold untranscoded
  refine (onSite_bound hh).seq fun _ _ h₁ => (orRaise_bound _ h₁).seq fun _ _ h₂ => ?_
  rw [yields_ite]
  split
  · refine (onSite_bound h₂).seq fun _ _ h₃ => (orRaise_bound _ h₃).seq fun _ _ h₄ => ?_
    show Yields (if _ then _ else _) _ _ _
    rw [yields_ite]
    split
    · exact (substitute_bound h₄).seq fun _ _ h₅ => ⟨h₅, hr⟩
    · exact ⟨h₄, hr⟩
  · exact ⟨h₂, hn⟩

end

/-- What `Content-Length` says is the length of `ts_stream`. -/
def LengthDeclared (response : Response) (h : Handler τ) : Prop :=
  ∀ n, ("Content-Length", n) ∈ response.headers → ∃ stream, h.tsStream = some stream ∧ n = toString stream.total

theorem bindStream_returns {m : EStateM Unit (Site τ) TsStream} {h : Handler τ} (hm : Returns m h.site) :
    Yields (bindStream m) h (fun stream t => t.tsStream = some stream ∧ t.started = h.started) fun _ _ => False := by
  unfold bindStream
  rw [yields_bind]
  exact (yields_focus m).mpr (hm.imp fun _ _ _ => ⟨rfl, rfl⟩)

/-- Behind the first stream. -/
theorem respond_bound {uriReq : Text} {s : Site τ} (hs : Returns (transcoded c o channelId seqId) s) :
    Yields (respond c o uriReq channelId seqId) (.start s) (fun r t => Bound t ∧ LengthDeclared r t) fun _ => Bound := by
  have hfirst : Yields (bindStream (transcoded c o channelId seqId)) (.start s)
      (fun stream t => t.tsStream = some stream ∧ t.started = []) fun _ => Bound :=
    (bindStream_returns hs).total
  apply hfirst.seq
  rintro stream t ⟨hst, hstart⟩
  have hb : Bound t := ⟨hst ▸ rfl, hstart⟩
  rw [yields_ite]
  split
  · rw [yields_bind, yields_modify]
    refine ⟨⟨hb.tsStream, hb.started⟩, fun n hn => ⟨stream, hst, ?_⟩⟩
    -- the length that is declared is the one of the stream
    simpa [normal] using hn
  · exact (untranscoded_bound hb).mono (fun _ _ h => ⟨h.1, fun n hn => absurd hn (h.2 n)⟩) fun _ _ h => h

/-- The first stream raises. -/
theorem respond_unbound {uriReq : Text} {s : Site τ} (hs : ¬Returns (transcoded c o channelId seqId) s) :
    Yields (respond c o uriReq channelId seqId) (.start s) (fun _ _ => False) fun _ t => t.tsStream = none := by
  unfold respond bindStream onSite
  rw [yields_bind, yields_bind, yields_focus]
  exact (yields_of_not_returns hs).mono (fun _ _ h => h.elim) fun _ _ _ => rfl

/-- One call of `start_response`; a length that it declares is the one of the body. -/
def Answered (body : TsStream) (h : Handler τ) : Prop :=
  ∃ response, h.started = [response] ∧ ∀ n, ("Content-Length", n) ∈ response.headers → n = toString body.total

/-- `application` returns a body, and has called `start_response`. -/
def Answers (c : Config) (o : Outside τ) (uriReq : Text) (s : Site τ) : Prop :=
  Yields (application c o uriReq) (.start s) Answered fun _ _ => False

/-- The end of `application`. -/
theorem answered {r : Response} {t : Handler τ} (hb : Bound t) (hl : LengthDeclared r t) {E : Unit → Handler τ → Prop} :
    Yields (do
      modify fun h => { h with started := h.started ++ [r] }
      orRaise (← get).tsStream) t Answered E := by
  obtain ⟨body, hbody⟩ := Option.isSome_iff_exists.mp hb.tsStream
  rw [yields_bind, yields_modify, yields_bind, yields_get, hbody]
  refine ⟨r, by rw [hb.started]; rfl, fun n hn => ?_⟩
  obtain ⟨stream, hst, rfl⟩ := hl n hn
  rw [Option.some.inj (hst.symm.trans hbody)]

theorem application_answers {uriReq : Text} (h : tsRoute uriReq = some (channelId, seqId)) (c : Config) (o : Outside τ)
    (s : Site τ) : Answers c o uriReq s ↔ Transcodable c o channelId seqId s := by
  have hgw : Undeclared badGateway := undeclared_of_not_mem (by decide)
  rw [← returns_transcoded, Answers, application_eq h, yields_bind, yields_tryCatch]
  by_cases hs : Returns (transcoded c o channelId seqId) s
  · refine iff_of_true ((respond_bound hs).mono (fun r t hr => answered hr.1 hr.2) fun _ t hb => ?_) hs
    exact answered hb fun n hn => absurd hn (hgw n)
  · refine iff_of_false (fun ha => ?_) hs
    refine (((respond_unbound hs).and ha).mono (fun _ _ h => h.1) fun _ t ⟨hn, h⟩ => ?_).elim
    -- `ts_stream` is not bound
    rw [yields_pure, yields_bind, yields_modify, yields_bind, yields_get, hn] at h
    exact h

def wsgiConf : Config := ⟨.pptransfer, false, false⟩

def firstUri : Text := tsUri ['a', 'c', '9', '4'] "1353923335".toList

theorem tsRoute_firstUri : tsRoute firstUri = some (['a', 'c', '9', '4'], "1353923335".toList) := by decide +kernel

/-- A request for the first segment of a channel. If it is `late`, another one
makes the directory after this one has looked for it. -/
def contended (late : Bool) : Outside Unit where
  pathExists _ _ := !late
  mkdir _ := throw ()
  system _ := pure 0
  openFile _ _ := some ⟨some [[0x47]], true⟩
  getsize _ _ := some 0
  remove _ := pure ()
  drmWorker := pure fun _ => none

theorem application_answers_first : Answers wsgiConf (contended false) firstUri ⟨(), lastTsUriAtStart⟩ :=
  (application_answers tsRoute_firstUri wsgiConf (contended false) _).mpr
    ⟨.inl rfl, fun f hf => (Option.some.inj hf).symm ▸ rfl, fun hn => absurd hn (by decide)⟩

/-- The late request is started with a 502, and then it raises. -/
theorem late_request_unanswered :
    (∃ h, application wsgiConf (contended true) firstUri (.start ⟨(), lastTsUriAtStart⟩) = .error () h ∧
      h.started = [badGateway]) ∧ ¬Answers wsgiConf (contended true) firstUri ⟨(), lastTsUriAtStart⟩ := by
  have h : application wsgiConf (contended true) firstUri (.start ⟨(), lastTsUriAtStart⟩) =
      .error () ⟨⟨(), lastTsUriAtStart⟩, none, [badGateway]⟩ := by
    rw [application_eq tsRoute_firstUri]
    rfl
  refine ⟨⟨_, h, rfl⟩, fun ha => ?_⟩
  unfold Answers Yields at ha
  rw [h] at ha
  exact ha

end XH.Proof.Vod
