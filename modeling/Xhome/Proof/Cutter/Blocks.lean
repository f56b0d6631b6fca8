import Xhome.Proof.Cutter.Consistent
import Xhome.Proof.Cutter.Rules

/-!
# Every block file of a run is consistent

`header_piece_len_` stays the size of `header_piece_` through the handlers that
store, replace and append (`WriterOk`), so each block file put in place, by a
routine that returns or by one that is still running, is a header that
describes the data behind it (`blocks_consistent`).
-/

namespace XH.Proof.Cutter

open XH.Impl.Cutter

/-! ## The data of a block -/

/-- The cue point of the block `id`. -/
def cueAt (scale id : Nat) : Piece := if id % scale = 0 then [setCheckId checkPointTagData id] else []

/-- The size of `CheckPointTagData`. -/
def checkPointTagSize : Nat := 119

theorem length_setCheckId {tag : Buffer} (h : tag.length = checkPointTagSize) (id : Nat) :
    (setCheckId tag id).length = checkPointTagSize := by
  simp only [setCheckId, overwrite, be64, checkPointOffset, List.length_append, List.length_take, List.length_drop,
    List.length_map, List.length_cons, List.length_nil, h, checkPointTagSize]
  rfl

theorem size_cueAt (scale id : Nat) : Piece.size (cueAt scale id) ≤ checkPointTagSize := by
  unfold cueAt
  split
  · rw [Piece.size_cons, length_setCheckId rfl]; exact le_rfl
  · exact Nat.zero_le _

/-- The buffers of a block: the header piece or an FLV header, the cue point,
and the piece or the off-air tag. -/
def blockData (env : Env) (scale : Nat) (kind : BlockKind) (id : Nat) : Piece :=
  match kind with
  | .special t => flvHeader :: (cueAt scale id ++ if t = 0 then [env.onairTag.getD offairTagData] else [])
  | .normal headerPiece piece => headerPiece ++ cueAt scale id ++ piece

/-- The writer's own count of its header piece, and its tags. -/
structure WriterOk (env : Env) (scale : Nat) (w : Writer) : Prop where
  headerLen : w.headerPieceLen = u32 (Piece.size w.headerPiece)
  cue : ∃ tag, w.checkpointTag = some tag ∧ (tag = checkPointTagData ∨ ∃ id, tag = setCheckId checkPointTagData id)
  offair : w.offairTag = some (env.onairTag.getD offairTagData)
  scale : w.checkpointScale = scale

theorem overwrite_same {b : Buffer} {o : Nat} {x y : List Byte} (hb : o + x.length ≤ b.length) (hl : x.length = y.length) :
    overwrite (overwrite b o x) o y = overwrite b o y := by
  have ho : (b.take o).length = o := by rw [List.length_take]; omega
  have hox : (b.take o ++ x).length = o + x.length := by rw [List.length_append, ho]
  have ht : (overwrite b o x).take o = b.take o := by
    rw [overwrite, List.append_assoc]; exact List.take_left' ho
  have hd : (overwrite b o x).drop (o + y.length) = b.drop (o + y.length) := by
    rw [overwrite, ← hl]; exact List.drop_left' hox
  rw [overwrite, ht, hd, overwrite]

theorem setCheckId_setCheckId (a b : Nat) :
    setCheckId (setCheckId checkPointTagData a) b = setCheckId checkPointTagData b :=
  overwrite_same (by rw [be64, List.length_map]; decide) (by simp only [be64, List.length_map])

section
variable {env : Env} {scale : Nat} {w : Writer}

theorem WriterOk.cueOf (h : WriterOk env scale w) : cueOf w = cueAt scale w.currentPieceId := by
  obtain ⟨tag, ht, htag⟩ := h.cue
  have hset : setCheckId tag w.currentPieceId = setCheckId checkPointTagData w.currentPieceId := by
    rcases htag with rfl | ⟨id, rfl⟩
    · rfl
    · exact setCheckId_setCheckId _ _
  simp only [Cutter.cueOf, ht, cueAt, Writer.needCheckPointTag, h.scale, beq_iff_eq, hset]

theorem WriterOk.cueTag (h : WriterOk env scale w) :
    ∃ tag, cueTag w = some tag ∧ (tag = checkPointTagData ∨ ∃ id, tag = setCheckId checkPointTagData id) := by
  obtain ⟨tag, ht, htag⟩ := h.cue
  unfold Cutter.cueTag
  split
  · refine ⟨_, by rw [ht, Option.map_some], .inr ⟨w.currentPieceId, ?_⟩⟩
    rcases htag with rfl | ⟨id, rfl⟩
    · rfl
    · exact setCheckId_setCheckId _ _
  · exact ⟨tag, ht, htag⟩

theorem WriterOk.specialData (h : WriterOk env scale w) (t : Nat) :
    specialData w t = blockData env scale (.special t) w.currentPieceId := by
  simp only [Cutter.specialData, blockData, h.cueOf, offairOf, h.offair, Option.toList_some]

theorem WriterOk.pieceData (h : WriterOk env scale w) (piece : Piece) :
    pieceData w piece = blockData env scale (.normal w.headerPiece piece) w.currentPieceId := by
  simp only [Cutter.pieceData, blockData, h.cueOf]

theorem WriterOk.pieceLen (h : WriterOk env scale w) (piece : Piece) :
    pieceLen w piece = u32 (Piece.size (Cutter.pieceData w piece)) := by
  simp only [Cutter.pieceLen, Cutter.pieceData, Piece.size_append, h.headerLen, Nat.add_assoc, u32_u32_add]

end

/-! ## The files -/

/-- The file of a block: a header of 1400 bytes that describes the data, and the
data. -/
structure Consistent (env : Env) (scale : Nat) (b : Written) : Prop where
  path : b.path.getLast? = some (blockName b.id)
  content : ∃ h : FlvBlockHeader, h.serialize.length = 1400 ∧
    b.content = h.serialize ++ (blockData env scale b.kind b.id).flatten ∧
    (Piece.size (blockData env scale b.kind b.id) ≤ 338 * 22400 →
      Describes env.md5 h b.id (blockData env scale b.kind b.id).flatten)

/-- An entry of `piece_file_queue_`: a file found by `Init`, or a block with its
size. -/
def Listed (disk : Tree) (written : List Written) (f : PieceFileInfo) : Prop :=
  (∃ c, (f.path, c) ∈ disk.files ∧ f.size = c.length) ∨
  ∃ b ∈ written, f.id = b.id ∧ f.path = b.path ∧
    (b.content.length ≤ 1400 + 338 * 22400 → f.size = b.content.length)

theorem Listed.mono {disk : Tree} {l l' : List Written} {f : PieceFileInfo} (h : Listed disk l f)
    (hl : ∀ b ∈ l, b ∈ l') : Listed disk l' f :=
  h.imp_right fun ⟨b, hb, h⟩ => ⟨b, hl b hb, h⟩

/-- What holds at any time: of the block files, and of the queue. -/
structure Filed (env : Env) (scale : Nat) (disk : Tree) (s : World) : Prop where
  written : ∀ b ∈ s.fs.written, Consistent env scale b
  queue : ∀ f ∈ s.fs.pieceFileQueue, Listed disk s.fs.written f

/-- What holds between the handlers. -/
structure Sound (env : Env) (scale : Nat) (disk : Tree) (s : World) : Prop extends Filed env scale disk s where
  writer : WriterOk env scale s.w

theorem consistent_headed {env : Env} {scale : Nat} {s : World} {data : Piece} {b : Written}
    (hd : data = blockData env scale b.kind s.w.currentPieceId) (hid : b.id = s.w.currentPieceId)
    (hp : b.path.getLast? = some (blockName s.w.currentPieceId))
    (hc : b.content = blockContent (headed env (u32 (Piece.size data)) data s).w data) : Consistent env scale b := by
  rw [← hid] at hd hp
  refine ⟨hp, headerOf env s.w (u32 (Piece.size data)) data, length_serialize _, by rw [hc, ← hd]; rfl, fun hl => ?_⟩
  rw [← hd, hid] at *
  exact headerOf_describes env s.w hl

/-- A block of the right data and length. -/
theorem writeBlock_sound {env : Env} {scale : Nat} {disk : Tree} {s : World} (hs : Sound env scale disk s) (fuel : Nat)
    {kind : BlockKind} {data : Piece} {len : Nat} (n : Nat) (hd : data = blockData env scale kind s.w.currentPieceId)
    (hl : len = u32 (Piece.size data)) :
    WP (writeBlock env fuel kind data len n) s (fun _ t => Sound env scale disk t) (Filed env scale disk) := by
  subst hl
  refine (writeBlock_spec env fuel kind data (u32 (Piece.size data)) n s).mono (fun _ t hw => ?_) fun t ht => ?_
  · have hb : Consistent env scale (placed env kind data (headed env (u32 (Piece.size data)) data s)) :=
      consistent_headed hd rfl List.getLast?_concat rfl
    refine ⟨⟨?_, ?_⟩, by rw [hw.w]; exact ⟨hs.writer.headerLen, hs.writer.cue, hs.writer.offair, hs.writer.scale⟩⟩
    · rw [hw.written]
      intro b h
      rcases List.mem_append.mp h with h | h
      · exact hs.written b h
      · rw [List.mem_singleton.mp h]; exact hb
    · rw [hw.pieceFileQueue, hw.written]
      intro f h
      rcases List.mem_append.mp h with h | h
      · split at h
        · cases h
        · exact (hs.queue f h).mono fun b hb => List.mem_append_left _ hb
      · rw [List.mem_singleton.mp h]
        refine .inr ⟨_, List.mem_append_right _ (List.mem_singleton_self _), rfl, rfl, fun hlen => ?_⟩
        have hlc : (placed env kind data (headed env (u32 (Piece.size data)) data s)).content.length =
            1400 + Piece.size data := by
          show ((headed env (u32 (Piece.size data)) data s).w.blockHeader.serialize ++ data.flatten).length = _
          rw [List.length_append, length_serialize, Piece.length_flatten]
        rw [hlc] at hlen ⊢
        show u32 (u32 (Piece.size data) + 1400) = _
        rw [u32_u32_add, u32_of_lt (by omega), Nat.add_comm]
  · obtain ⟨hn, -⟩ := ht
    refine ⟨fun b hb => ?_, fun f hf => (hs.queue f (hn.queue f hf)).mono hn.kept⟩
    rcases hn.written b hb with h | ⟨hk, hid, hp, hc, -⟩
    · exact hs.written b h
    · exact consistent_headed (s := s) (by rw [hk]; exact hd) hid hp hc

/-! ## The handlers -/

section
variable {env : Env} {scale : Nat} {disk : Tree}

/-- A change that touches neither the tags and the header piece nor the files. -/
theorem Sound.of_eq {s t : World} (hs : Sound env scale disk s) (hp : t.w.headerPiece = s.w.headerPiece)
    (hl : t.w.headerPieceLen = s.w.headerPieceLen) (hc : t.w.checkpointTag = s.w.checkpointTag)
    (ho : t.w.offairTag = s.w.offairTag) (hsc : t.w.checkpointScale = s.w.checkpointScale)
    (hw : t.fs.written = s.fs.written) (hq : t.fs.pieceFileQueue = s.fs.pieceFileQueue) : Sound env scale disk t :=
  ⟨⟨by rw [hw]; exact hs.written, by rw [hq, hw]; exact hs.queue⟩, by rw [hl, hp]; exact hs.writer.headerLen,
    by rw [hc]; exact hs.writer.cue, by rw [ho]; exact hs.writer.offair, by rw [hsc]; exact hs.writer.scale⟩

theorem Sound.ticked {s : World} (hs : Sound env scale disk s) : Sound env scale disk (ticked s) :=
  hs.of_eq rfl rfl rfl rfl rfl rfl rfl

theorem Sound.cued {s : World} (hs : Sound env scale disk s) : Sound env scale disk (cued s) :=
  ⟨⟨hs.written, hs.queue⟩, hs.writer.headerLen, hs.writer.cueTag, hs.writer.offair, hs.writer.scale⟩

theorem writeOneSpecialPiece_sound {s : World} (hs : Sound env scale disk s) (fuel specialType : Nat) :
    WP (writeOneSpecialPiece env fuel specialType) s (fun _ t => Sound env scale disk t) (Filed env scale disk) := by
  by_cases h : specialType ≤ 1
  · have hs' : Sound env scale disk (specialStart specialType s) := hs.cued.of_eq rfl rfl rfl rfl rfl rfl rfl
    unfold WP
    rw [writeOneSpecialPiece_eq env fuel h]
    exact writeBlock_sound hs' fuel _ (hs.writer.specialData specialType) rfl
  · rw [writeOneSpecialPiece, if_neg h]
    exact .pure hs

theorem writePiece_sound {s : World} (hs : Sound env scale disk s) (fuel : Nat) (piece : Piece) :
    WP (writePiece env fuel piece) s (fun _ t => Sound env scale disk t) (Filed env scale disk) := by
  unfold WP
  rw [writePiece_eq]
  exact writeBlock_sound hs.cued fuel _ (hs.writer.pieceData piece) (hs.writer.pieceLen piece)

theorem Sound.of_offRemoval {s t : World} (hs : Sound env scale disk s) (hk : offRemoval t = offRemoval s)
    (hq : Queued (Listed disk s.fs.written) t) : Sound env scale disk t := by
  have hw : t.w = s.w := congrArg (·.w) hk
  have hb : t.fs.written = s.fs.written := congrArg (·.fs.written) hk
  exact ⟨⟨by rw [hb]; exact hs.written, by rw [hb]; exact hq⟩, by rw [hw]; exact hs.writer⟩

/-- Pieces leave the queue. -/
theorem removal_sound {α : Type} {m : Prog World α} {s : World} (hs : Sound env scale disk s) (hk : Keeps offRemoval m)
    (hq : WP m s (fun _ t => Queued (Listed disk s.fs.written) t) (Queued (Listed disk s.fs.written))) :
    WP m s (fun _ t => Sound env scale disk t) (Filed env scale disk) :=
  ((hk s).and hq).mono (fun _ _ h => hs.of_offRemoval h.1 h.2) fun _ h => (hs.of_offRemoval h.1 h.2).toFiled

theorem dropExpired_sound {s : World} (hs : Sound env scale disk s) (expired : PieceFileInfo → Bool) :
    WP (dropExpired env expired s.fs.pieceFileQueue) s (fun _ t => Sound env scale disk t) (Filed env scale disk) :=
  removal_sound hs (dropExpired_offRemoval env expired _) (dropExpired_queued env expired hs.queue hs.queue)

/-! ## `HandleUpdateHeader` -/

/-- The loop over the tags changes their size by that of the tag it replaces. -/
theorem size_replaceTag {type : Nat} {head body : Buffer} :
    ∀ {tags tags' : List Buffer} {removed : Option Nat}, replaceTag type head body tags = some (tags', removed) →
      match removed with
      | some n => Piece.size tags' + n = Piece.size tags + (head.length + body.length)
      | none => tags' = tags
  | [], tags', removed, h => by cases h; rfl
  | [x], tags', removed, h => by cases h
  | x :: y :: rest, tags', removed, h => by
    rw [replaceTag] at h
    split at h
    · cases h
    · split at h
      · cases h
        simp only [Piece.size_cons]
        omega
      · obtain ⟨⟨tags, removed'⟩, hr, e⟩ := Option.map_eq_some_iff.mp h
        have ih := size_replaceTag hr
        cases e
        cases removed' with
        | none => simp only at ih ⊢; rw [ih]
        | some n => simp only [Piece.size_cons] at ih ⊢; omega

theorem handleUpdateHeader_sound {s t : World} (hs : Sound env scale disk s) {head body : Buffer}
    (h : handleUpdateHeader head body s = .ret () t) : Sound env scale disk t := by
  obtain ⟨first, tags, tags', removed, hp, hr, hc⟩ := handleUpdateHeader_cases h
  have hlen : s.w.headerPieceLen = u32 (first.length + Piece.size tags) := by
    rw [hs.writer.headerLen, hp, Piece.size_cons]
  have hsize := size_replaceTag hr
  rw [length_setTagTs] at hsize
  suffices hok : t.w.headerPieceLen = u32 (Piece.size t.w.headerPiece) by
    rcases hc with ⟨n, -, rfl⟩ | ⟨-, rfl⟩
    · exact ⟨⟨hs.written, hs.queue⟩, hok, hs.writer.cue, hs.writer.offair, hs.writer.scale⟩
    · exact ⟨⟨hs.written, hs.queue⟩, hok, hs.writer.cue, hs.writer.offair, hs.writer.scale⟩
  rcases hc with ⟨n, rfl, rfl⟩ | ⟨rfl, rfl⟩
  · -- replaced: what is taken off is part of the old length
    simp only [withHeader, hlen, Piece.size_cons]
    simp only [u32, sub32]
    omega
  · simp only at hsize
    simp only [withHeader, hlen, Piece.size_append, Piece.size_cons, Piece.size_nil, length_setTagTs, hsize]
    simp only [u32]
    omega

/-- The invariant of the writer's thread. -/
theorem sound_invariant : Invariant env (Sound env scale disk) (Sound env scale disk) (Filed env scale disk) where
  running _ hs := hs.toFiled
  passed _ hs := hs
  inert hs h := by
    have hw : ∀ {α : Type} (f : Writer → α), f (offFlags _) = f (offFlags _) := fun f => congrArg f h.w
    exact hs.of_eq (hw Writer.headerPiece) (hw Writer.headerPieceLen) (hw Writer.checkpointTag) (hw Writer.offairTag)
      (hw Writer.checkpointScale) (congrArg Storage.written h.fs) (congrArg Storage.pieceFileQueue h.fs)
  tick _ hs := hs.ticked
  tickPassed _ hs := hs.ticked
  special n _ _ hs _ := writeOneSpecialPiece_sound hs n _
  specialPassed n _ hs _ := writeOneSpecialPiece_sound hs n 1
  guard _ hs _ := hs
  begin _ hs _ := hs.of_eq rfl rfl rfl rfl rfl rfl rfl
  header _ _ hs := ⟨⟨hs.written, hs.queue⟩, rfl, hs.writer.cue, hs.writer.offair, hs.writer.scale⟩
  piece n p _ hs := writePiece_sound hs n p
  expire expired _ hs := dropExpired_sound hs expired
  dirs _ _ _ hs := hs.of_eq rfl rfl rfl rfl rfl rfl rfl
  update hs h := handleUpdateHeader_sound hs h

/-! ## `Init` -/

/-- The scan of the newest directory. -/
theorem loadPieces_sound {s : World} (hs : Sound env scale disk s) (hd : s.fs.disk = disk) (nowId : Nat) (dir : Path) :
    WP (loadPieces env nowId dir) s (fun _ t => Sound env scale disk t) (Filed env scale disk) :=
  removal_sound hs (loadPieces_offRemoval env nowId dir)
    (loadPieces_queued env nowId dir fun _ c hc _ => .inl ⟨c, hd ▸ hc, rfl⟩)

theorem resumePieces_sound {s : World} (hs : Sound env scale disk s) (mediaTs : Nat) :
    WP (resumePieces mediaTs) s (fun _ t => Sound env scale disk t) (Filed env scale disk) := by
  refine .bind (.get ?_)
  split
  · exact .bind (.modify (.pure (hs.of_eq rfl rfl rfl rfl rfl rfl rfl)))
  · exact .pure hs

end

/-- The writer after `Init`. -/
theorem start_sound (env : Env) (fuel : Nat) (u : Uninit) (dir : Path) (guid : Name)
    (pieceScale pieceLifeSpan statusReportPeriod : Nat) (disk : Tree) :
    WP (init env fuel 0) (construct u dir guid pieceScale pieceLifeSpan statusReportPeriod disk)
      (fun _ t => Sound env pieceScale disk t) (Filed env pieceScale disk) := by
  have hscan : Sound env pieceScale disk
      (scanned env (construct u dir guid pieceScale pieceLifeSpan statusReportPeriod disk)) :=
    ⟨⟨(fun b h => by cases h), (fun f h => by cases h)⟩, rfl, ⟨_, rfl, .inl rfl⟩, rfl, rfl⟩
  have hopen : ∀ d, Sound env pieceScale disk
      (opened d (scanned env (construct u dir guid pieceScale pieceLifeSpan statusReportPeriod disk))) :=
    fun _ => hscan.of_eq rfl rfl rfl rfl rfl rfl rfl
  refine (sound_invariant.init fuel 0 (fun _ => hscan) fun d _ => ?_).mono (fun _ _ h => h.1) fun _ h => h
  exact (loadPieces_sound (hopen d) rfl _ _).mono (fun _ t ht => resumePieces_sound ht 0) fun _ h => h

/-- In every state of every run, whatever fails: each block file put in place
is a header that describes the data behind it, and the data is the header piece
or the FLV header, the cue point and the piece; each entry of `piece_file_queue_`
is a file found by `Init` or a block with its size. -/
theorem blocks_consistent {env : Env} {fuel : Nat} {u : Uninit} {dir : Path} {guid : Name}
    {pieceScale pieceLifeSpan statusReportPeriod : Nat} {disk : Tree} {t : World}
    (ht : Shows env (start env fuel u dir guid pieceScale pieceLifeSpan statusReportPeriod disk) t) :
    (∀ b ∈ t.fs.written, Consistent env pieceScale b) ∧
      ∀ f ∈ t.fs.pieceFileQueue, Listed disk t.fs.written f := by
  have h₀ := start_sound env fuel u dir guid pieceScale pieceLifeSpan statusReportPeriod disk
  have hf : Filed env pieceScale disk t := sound_invariant.shows (fun e => h₀.ret e) (fun e => h₀.run e) ht
  exact ⟨hf.written, hf.queue⟩

/-- A header piece, an audio head added to it, a piece and an empty piece. -/
def smallPieces : List WriterEvent :=
  [.msg 2 (.writePiece true [flvHeader] 0 0), .msg 2 (.updateHeader [8, 0, 0, 1, 0, 0, 7, 0, 0, 0, 0] [0xaf, 0, 0, 0, 12]),
    .msg 2 (.writePiece false [[9, 0, 0, 1, 0, 0, 7, 0, 0, 0, 0], [0x27, 0, 0, 0, 12]] 0 7), .msg 2 (.writePiece false [] 0 7)]

theorem blocks_consistent_smallPieces :
    ∃ t, Shows (quiet fun _ => 1000) (start (quiet fun _ => 1000) 1 zeroed [] ['g'] 1 100 60 ⟨[], []⟩) t ∧
      t.fs.written.map (fun b => (b.id, b.content.length)) = [(1000, 1564), (1001, 1548)] ∧
      ∀ b ∈ t.fs.written, Consistent (quiet fun _ => 1000) 1 b := by
  have h : ((start (quiet fun _ => 1000) 1 zeroed [] ['g'] 1 100 60 ⟨[], []⟩).andThen fun _ w =>
      runEvents (writerStep (quiet fun _ => 1000)) w smallPieces).map
        (fun t => t.fs.written.map fun b => (b.id, b.content.length)) = some [(1000, 1564), (1001, 1548)] := by
    decide +kernel
  obtain ⟨t, ht, h⟩ := Option.map_eq_some_iff.mp h
  exact ⟨t, .of_runEvents ht, h, (blocks_consistent (.of_runEvents ht)).1⟩

end XH.Proof.Cutter
