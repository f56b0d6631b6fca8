import Xhome.Proof.Cutter.Retry

/-!
# Rules for the handlers and the runs of the writer

`padLoop` and `fillLoop` keep what one special piece keeps; when they end, no
slot is missing. `Invariant` lists what is asked of the single actions of the
writer's thread; every handler then keeps the invariant. `Shows` are the states
a run of the writer goes through: those between two handlers, and those in which
a loop is still running.
-/

namespace XH.Proof.Cutter

open XH.Impl.Cutter

variable {env : Env}

/-! ## The fill loops -/

section
variable {I J : World → Prop}

/-- The rule for `padLoop`: the clock has just been read when a piece is written. -/
theorem padLoop_rule {specialType : Nat} (hJ : ∀ s, I s → J s) (ht : ∀ s, I s → I (ticked s))
    (hp : ∀ n s, I s → s.w.slotsBehind (s.now env) > 0 →
      WP (writeOneSpecialPiece env n specialType) s (fun _ t => I t) J) :
    ∀ (fuel : Nat) {s : World}, I s →
      WP (padLoop env specialType fuel) s (fun _ t => I t ∧ ¬ t.w.slotsBehind (t.now env) > 0) J
  | 0, s, hs => .running (hJ s hs)
  | fuel + 1, s, hs => by
    refine .bind (.of_ret (getUTC_apply env s) (.bind (.get ?_)))
    have hi : I (ticked s) := ht s hs
    split
    · rename_i h
      exact .seq (hp (fuel + 1) (ticked s) hi h) fun _ t htI => padLoop_rule hJ ht hp fuel htI
    · rename_i h
      exact .pure ⟨hi, h⟩

/-- The rule for `fillLoop` up to `nowId`. -/
theorem fillLoop_rule {nowId : Nat} (hJ : ∀ s, I s → J s)
    (hp : ∀ n s, I s → s.w.currentPieceId ≠ 0 → s.w.slotsBehind nowId > 0 →
      WP (writeOneSpecialPiece env n 0) s (fun _ t => I t) J) :
    ∀ (fuel : Nat) {s : World}, I s →
      WP (fillLoop env nowId fuel) s
        (fun _ t => I t ∧ ¬ (t.w.currentPieceId ≠ 0 ∧ t.w.slotsBehind nowId > 0)) J
  | 0, s, hs => .running (hJ s hs)
  | fuel + 1, s, hs => by
    refine .bind (.get ?_)
    split
    · rename_i h
      exact .seq (hp (fuel + 1) s hs h.1 h.2) fun _ t htI => fillLoop_rule hJ hp fuel htI
    · rename_i h
      exact .pure ⟨hs, h⟩

end

/-- A special piece does not read the clock. -/
theorem writeOneSpecialPiece_reads (env : Env) (fuel specialType : Nat) :
    Keeps (fun s => s.reads) (writeOneSpecialPiece env fuel specialType) := by
  have hb : ∀ (kind : BlockKind) (data : Piece) (len n : Nat),
      Keeps (fun s => s.reads) (writeBlock env fuel kind data len n) := fun kind data len n =>
    .bind (.modify fun _ => rfl) fun _ =>
      .bind ((writeLoop_offFiles env kind data _ fuel 0 n).comp (·.2.1)) fun _ => .modify fun _ => rfl
  have hc : Keeps (fun s => s.reads) cuePoint := by
    refine .bind .read fun s => ?_
    split
    · exact .ite (.bind (.modify fun _ => rfl) fun _ => .pure _) (.pure _)
    · exact .pure _
  have ho : Keeps (fun s => s.reads) (offair specialType) :=
    .bind .read fun s => .ite (.bind (.modify fun _ => rfl) fun _ => .pure _) (.pure _)
  exact .ite (.bind hc fun _ => .bind ho fun _ => .bind .read fun s => hb _ _ _ _) (.pure _)

theorem resumePieces_reads (mediaTs : Nat) : Keeps (fun s => s.reads) (resumePieces mediaTs) := by
  refine .bind .read fun s => ?_
  split
  · exact .bind (.modify fun _ => rfl) fun _ => .pure _
  · exact .pure _

/-! ## The scan of a directory -/

/-- The number in the name of a block file or of a directory. -/
def blockNumber (n : Name) : Nat := u32OfInt (atoi (stem n))

/-- The entry of a file. -/
def infoOf (dir : Path) (n : Name) (c : List Byte) : PieceFileInfo := ⟨blockNumber n, dir ++ [n], c.length⟩

/-- The entries found are block files of the directory. -/
theorem scanPieces_mem {d : Tree} {dir : Path} {e : Nat × PieceFileInfo} (h : e ∈ scanPieces d dir) :
    ∃ n c, (dir ++ [n], c) ∈ d.files ∧ extension n = blockExtension ∧ e = (blockNumber n, infoOf dir n c) := by
  obtain ⟨⟨n, c⟩, hf, he⟩ := List.mem_filterMap.mp (mem_of_mem_mapOfList h)
  simp only at he
  split at he
  · rename_i hx
    cases he
    exact ⟨n, c, Tree.mem_filesIn.mp hf, hx.1, rfl⟩
  · cases he

/-- The directories found hold the channel. -/
theorem scanDirs_mem {disk : Tree} {dir : Path} {guid : Name} {e : Nat × DirInfo} (h : e ∈ scanDirs disk dir guid) :
    ∃ n, n ∈ disk.subdirs dir ∧ disk.has (dir ++ [n, guid]) = true ∧ blockNumber n ≠ 0 ∧
      e = (blockNumber n, ⟨blockNumber n, dir ++ [n, guid]⟩) := by
  obtain ⟨n, hn, he⟩ := List.mem_filterMap.mp (mem_of_mem_mapOfList h)
  simp only at he
  split at he
  · rename_i hx
    cases he
    exact ⟨n, hn, hx.2, hx.1, rfl⟩
  · cases he

/-- The newest directory is one of the channel. -/
theorem path_of_newest {env : Env} {u : Uninit} {dir : Path} {guid : Name} {scale life report : Nat} {disk : Tree}
    {d : DirInfo} (h : (scanned env (construct u dir guid scale life report disk)).fs.dirQueue.getLast? = some d) :
    ∃ n, d.path = dir ++ [n, guid] := by
  obtain ⟨e, he, rfl⟩ := List.mem_map.mp (List.mem_of_getLast? h)
  obtain ⟨n, -, -, -, rfl⟩ := scanDirs_mem he
  exact ⟨n, congrArg (· ++ [n, guid]) List.dropLast_concat⟩

theorem removeTmps_files (env : Env) (dir : Path) :
    ∀ (ns : List Name) (s : World),
      WP (removeTmps env dir ns) s (fun _ t => ∀ f ∈ t.fs.disk.files, f ∈ s.fs.disk.files) (fun _ => False)
  | [], _ => .pure fun _ h => h
  | n :: ns, s => by
    rw [removeTmps]
    split
    · refine .seq (P := fun _ t => ∀ f ∈ t.fs.disk.files, f ∈ s.fs.disk.files) ?_ fun ok t ht => ?_
      · refine .bind (.get (.bind (.modify ?_)))
        split
        · exact .pure fun _ h => h
        · exact .bind (.modify (.pure fun f h => Tree.mem_files_remove h))
      · split
        · exact (removeTmps_files env dir ns t).mono (fun _ _ h f hf => ht f (h f hf)) fun _ h => h
        · exact .pure ht
    · exact removeTmps_files env dir ns s

/-- What holds of the block files of the directory holds of the queue. -/
theorem loadPieces_queued (env : Env) (nowId : Nat) (dir : Path) {P : PieceFileInfo → Prop} {s : World}
    (hP : ∀ n c, (dir ++ [n], c) ∈ s.fs.disk.files → extension n = blockExtension → P (infoOf dir n c)) :
    WP (loadPieces env nowId dir) s (fun _ t => Queued P t) (Queued P) := by
  have hfiles := removeTmps_files env dir ((s.fs.disk.filesIn dir).map (·.1)) s
  refine .bind (.get (.seq (hfiles.mono (fun _ _ h => h) fun _ h => h.elim) fun ok t ht => ?_))
  have hq : ∀ f ∈ (if ok then (scanPieces t.fs.disk dir).map (·.2) else []), P f := fun f hf => by
    split at hf
    · obtain ⟨e', he, rfl⟩ := List.mem_map.mp hf
      obtain ⟨n, c, hc, hx, rfl⟩ := scanPieces_mem he
      exact hP n c (ht _ hc) hx
    · cases hf
  exact .bind (.modify (.bind (.get (dropExpired_queued env _ hq hq))))

/-! ## The handlers -/

/-- The writer without its flags and counters. -/
def offFlags (w : Writer) : Writer :=
  { w with stat := .firstPiece, readerOk := false, writingPieceNum := 0, curMediaTs := 0, reportAlarm := 0 }

/-- Only flags, counters and reports differ. -/
structure Inert (s t : World) : Prop where
  w : offFlags t.w = offFlags s.w
  fs : t.fs = s.fs
  reads : t.reads = s.reads

/-- The next slot and the time are the same. -/
theorem Inert.slots {s t : World} (h : Inert s t) (env : Env) :
    t.w.currentPieceId = s.w.currentPieceId ∧ t.w.pieceScale = s.w.pieceScale ∧ t.now env = s.now env :=
  ⟨show (offFlags t.w).currentPieceId = (offFlags s.w).currentPieceId by rw [h.w],
    show (offFlags t.w).pieceScale = (offFlags s.w).pieceScale by rw [h.w], by rw [World.now, World.now, h.reads]⟩

/-- `STAT_FIRST_PIECE` has stored the header piece. -/
def headerStored (piece : Piece) (s : World) : World :=
  { s with w := { s.w with headerPiece := piece, headerPieceLen := u32 (Piece.size piece), stat := .secondPiece } }

/-- The timeline begins at the last reading of the clock. -/
def begun (env : Env) (s : World) : World :=
  { s with w := { s.w with currentPieceId := s.now env / s.w.pieceScale * s.w.pieceScale } }

/-- The queue of directories. -/
def withDirs (ds : List DirInfo) (s : World) : World := { s with fs := { s.fs with dirQueue := ds } }

/-- What the single actions of the writer's thread keep: `I` between the
handlers, `P` once a piece has passed the guards of `STAT_NORMAL`, `J` while a
loop is running. -/
structure Invariant (env : Env) (I P J : World → Prop) : Prop where
  running : ∀ s, I s → J s
  passed : ∀ s, P s → I s
  inert : ∀ {s t}, I s → Inert s t → I t
  tick : ∀ s, I s → I (ticked s)
  tickPassed : ∀ s, P s → P (ticked s)
  special : ∀ {ty} n s, ty ≤ 1 → I s → s.w.slotsBehind (s.now env) > 0 →
    WP (writeOneSpecialPiece env n ty) s (fun _ t => I t) J
  specialPassed : ∀ n s, P s → s.w.slotsBehind (s.now env) > 0 → WP (writeOneSpecialPiece env n 1) s (fun _ t => P t) J
  guard : ∀ s, I s → ¬ s.w.currentPieceId > u32 (s.now env + s.w.pieceScale) → P s
  begin : ∀ s, I s → s.w.currentPieceId = 0 → I (begun env s)
  header : ∀ piece s, I s → I (headerStored piece s)
  piece : ∀ n p s, P s → WP (writePiece env n p) s (fun _ t => I t) J
  expire : ∀ expired s, I s → WP (dropExpired env expired s.fs.pieceFileQueue) s (fun _ t => I t) J
  dirs : ∀ ds s, ds <:+ s.fs.dirQueue → I s → I (withDirs ds s)
  update : ∀ {head body s t}, I s → handleUpdateHeader head body s = .ret () t → I t

/-- `HandleUpdateHeader` has no loop that could be running. -/
theorem handleUpdateHeader_not_run {head body : Buffer} {s t : World} : handleUpdateHeader head body s ≠ .run t := by
  intro h
  cases hp : s.w.headerPiece with
  | nil => simp only [handleUpdateHeader, Prog.bind_ret (Prog.get_apply s), hp] at h; cases h
  | cons first tags =>
    simp only [handleUpdateHeader, Prog.bind_ret (Prog.get_apply s), hp] at h
    cases hr : replaceTag (tagType (setTagTs head 0)) (setTagTs head 0) body tags with
    | none => rw [hr] at h; cases h
    | some r =>
      obtain ⟨tags', _ | n⟩ := r
      · rw [hr] at h; cases h
      · rw [hr] at h; cases h

theorem countReport_inert {J : World → Prop} (s : World) : WP countReport s (fun _ t => Inert s t) J := by
  refine .bind (.modify (.bind (.get ?_)))
  split
  · exact .modify ⟨rfl, rfl, rfl⟩
  · exact .pure ⟨rfl, rfl, rfl⟩

/-- The state in which `CPieceWriter::OnClockAlarm` is called. -/
def dirsRemoved (env : Env) (s : World) : World :=
  withDirs ((ticked s).fs.dirQueue.dropWhile fun d =>
    i32 (env.utc s.reads) - i32 (u32 (d.id * dirScale)) > i32 (ticked s).w.pieceLifeSpan) (ticked s)

theorem onClockAlarm_eq (env : Env) (fuel : Nat) (s : World) :
    onClockAlarm env fuel s = baseOnClockAlarm env fuel (dirsRemoved env s) := rfl

namespace Invariant

variable {I P J : World → Prop}

/-- The slots up to the last reading of the clock are filled. -/
theorem fill (hI : Invariant env I P J) (fuel : Nat) {s : World} (hs : I s) :
    WP (fillLoop env (s.now env) fuel) s
      (fun _ t => (I t ∧ t.now env = s.now env) ∧ ¬ (t.w.currentPieceId ≠ 0 ∧ t.w.slotsBehind (s.now env) > 0)) J := by
  refine fillLoop_rule (I := fun t => I t ∧ t.now env = s.now env) (fun t h => hI.running t h.1) ?_ fuel ⟨hs, rfl⟩
  intro n t ht _ hb
  have hw := hI.special n t (Nat.zero_le 1) ht.1 (by rw [ht.2]; exact hb)
  refine (hw.and (writeOneSpecialPiece_reads env n 0 t)).mono (fun _ u hu => ⟨hu.1, ?_⟩) fun _ h => h.1
  have hr : u.reads = t.reads := hu.2
  rw [World.now, hr]
  exact ht.2

/-- The guards of `STAT_NORMAL`. -/
theorem checkPieceId (hI : Invariant env I P J) (fuel : Nat) {s : World} (hs : I s) :
    WP (checkPieceId env fuel) s (fun go t => I t ∧ (go = true → P t)) J := by
  have hi : I (ticked s) := hI.tick s hs
  refine .bind (.of_ret (getUTC_apply env s) (.bind (.get ?_)))
  split
  · exact .pure ⟨hi, fun h => by cases h⟩
  · rename_i hg
    have hp : P (ticked s) := hI.guard _ hi hg
    split
    · refine .seq (padLoop_rule (fun t h => hI.running t (hI.passed t h)) hI.tickPassed hI.specialPassed fuel hp) ?_
      exact fun _ t ht => .pure ⟨hI.passed t ht.1, fun _ => ht.1⟩
    · exact .pure ⟨hi, fun _ => hp⟩

theorem handleNormal (hI : Invariant env I P J) (fuel : Nat) (piece : Piece) {s : World} (hs : I s) :
    WP (handleNormal env fuel piece) s (fun _ t => I t) J := by
  refine .seq (hI.checkPieceId fuel hs) fun go t ht => ?_
  split
  · exact hI.piece fuel piece t (ht.2 ‹_›)
  · exact .pure ht.1

theorem startPieces (hI : Invariant env I P J) (fuel : Nat) {s : World} (hs : I s) :
    WP (startPieces env fuel) s (fun _ t => I t) J := by
  have hn : ∀ u : World, I u →
      WP (do Prog.modify fun s => { s with w := { s.w with stat := .normal } }; pure true) u (fun _ t => I t) J :=
    fun u hu => .of_ret rfl (hI.inert hu ⟨rfl, rfl, rfl⟩)
  refine .bind (.of_ret (getUTC_apply env s) (.bind (.get ?_)))
  split
  · exact .pure (hI.tick s hs)
  · split
    · refine .seq (padLoop_rule hI.running hI.tick (fun n t => hI.special n t (Nat.zero_le 1)) fuel (hI.tick s hs)) ?_
      exact fun _ t ht => hn t ht.1
    · rename_i h₀
      refine .bind (.of_ret (getUTC_apply env (ticked s)) (.bind (.modify ?_)))
      exact hn _ (hI.begin (ticked (ticked s)) (hI.tick _ (hI.tick s hs)) (Nat.eq_zero_of_not_pos h₀))

theorem handleWritePiece (hI : Invariant env I P J) (fuel : Nat) (piece : Piece) (mediaTs : Nat) {s : World} (hs : I s) :
    WP (handleWritePiece env fuel piece mediaTs) s (fun _ t => I t) J := by
  have hb : I (afterBase mediaTs s) := hI.inert hs ⟨rfl, rfl, rfl⟩
  refine .bind (.of_ret (baseHandleWritePiece_apply mediaTs s) (.bind (.get ?_)))
  split
  · exact .modify (hI.header piece _ hb)
  · refine .seq (hI.startPieces fuel hb) fun go t ht => ?_
    split
    · exact hI.handleNormal fuel piece ht
    · exact .pure ht
  · exact hI.handleNormal fuel piece hb

theorem handleReaderError (hI : Invariant env I P J) (fuel : Nat) {s : World} (hs : I s) :
    WP (handleReaderError env fuel) s
      (fun _ t => I t ∧ ¬ (t.w.currentPieceId ≠ 0 ∧ t.w.slotsBehind (t.now env) > 0)) J := by
  have he : I (afterError s) := hI.inert (hI.tick s hs) ⟨rfl, rfl, rfl⟩
  unfold WP
  rw [handleReaderError_eq]
  exact (hI.fill fuel he).mono (fun _ t h => ⟨h.1.1, by rw [h.1.2]; exact h.2⟩) fun _ h => h

/-- The pieces that have expired leave the queue; neither the reader's state nor
the time changes. -/
theorem removeExpired (hI : Invariant env I P J) (nowId : Nat) {s : World} (hs : I s) :
    WP (removeExpired env nowId) s (fun _ t => I t ∧ t.w.readerOk = s.w.readerOk ∧ t.now env = s.now env) J := by
  have hw : WP (Impl.Cutter.removeExpired env nowId) s (fun _ t => I t) J := .bind (.get (hI.expire _ s hs))
  refine (hw.and (removeExpired_offRemoval env nowId s)).mono (fun _ t ht => ⟨ht.1, ?_, ?_⟩) fun _ h => h.1
  · exact congrArg (·.w.readerOk) ht.2
  · have hn : t.reads = s.reads := congrArg (·.reads) ht.2
    rw [World.now, World.now, hn]

theorem baseOnClockAlarm (hI : Invariant env I P J) (fuel : Nat) {s : World} (hs : I s) :
    WP (baseOnClockAlarm env fuel) s
      (fun _ t => I t ∧ (s.w.readerOk = false → ¬ (t.w.currentPieceId ≠ 0 ∧ t.w.slotsBehind (t.now env) > 0))) J := by
  refine .bind (.of_ret (getUTC_apply env s) ?_)
  refine .seq (hI.removeExpired (env.utc s.reads) (hI.tick s hs)) fun _ t ht => ?_
  refine .seq (P := fun _ v => I v ∧
    (s.w.readerOk = false → ¬ (v.w.currentPieceId ≠ 0 ∧ v.w.slotsBehind (v.now env) > 0))) (.bind (.get ?_)) ?_
  · split
    · rename_i hr
      exact .pure ⟨ht.1, fun h => absurd (hr.symm.trans (ht.2.1.trans h)) (by decide)⟩
    · have hnow : t.now env = env.utc s.reads := ht.2.2
      rw [← hnow]
      exact (hI.fill fuel ht.1).mono (fun _ v h => ⟨h.1.1, fun _ => by rw [h.1.2]; exact h.2⟩) fun _ h => h
  · intro _ v hv
    refine (countReport_inert v).mono (fun _ x hx => ⟨hI.inert hv.1 hx, fun h => ?_⟩) fun _ h => h
    obtain ⟨h₁, h₂, h₃⟩ := hx.slots env
    have hb : x.w.slotsBehind (x.now env) = v.w.slotsBehind (v.now env) := by
      rw [Writer.slotsBehind, Writer.slotsBehind, h₁, h₂, h₃]
    rw [h₁, hb]
    exact hv.2 h

theorem onClockAlarm (hI : Invariant env I P J) (fuel : Nat) {s : World} (hs : I s) :
    WP (onClockAlarm env fuel) s
      (fun _ t => I t ∧ (s.w.readerOk = false → ¬ (t.w.currentPieceId ≠ 0 ∧ t.w.slotsBehind (t.now env) > 0))) J := by
  unfold WP
  rw [onClockAlarm_eq]
  exact hI.baseOnClockAlarm fuel (hI.dirs _ _ (List.dropWhile_suffix _) (hI.tick s hs))

/-- `Init`, with the slots up to the present filled. -/
theorem init (hI : Invariant env I P J) (fuel mediaTs : Nat) {s : World}
    (hscan : (scanned env s).fs.dirQueue.getLast? = none → I (scanned env s))
    (hload : ∀ d, (scanned env s).fs.dirQueue.getLast? = some d →
      WP (loadPieces env (env.utc s.reads) d.path) (opened d (scanned env s))
        (fun _ t => WP (resumePieces mediaTs) t (fun _ u => I u) J) J) :
    WP (init env fuel mediaTs) s
      (fun _ t => I t ∧ ¬ (t.w.currentPieceId ≠ 0 ∧ t.w.slotsBehind (t.now env) > 0)) J := by
  have hfill : ∀ t : World, t.reads = s.reads + 1 → I t → ∀ ts : Nat,
      WP (do fillLoop env (env.utc s.reads) fuel; pure ts) t
        (fun _ t => I t ∧ ¬ (t.w.currentPieceId ≠ 0 ∧ t.w.slotsBehind (t.now env) > 0)) J := fun t hr ht ts => by
    have hn : t.now env = env.utc s.reads := by rw [World.now, hr, Nat.add_sub_cancel]
    rw [← hn]
    exact .seq (hI.fill fuel ht) fun _ u hu => .pure ⟨hu.1.1, by rw [hu.1.2]; exact hu.2⟩
  unfold WP
  cases h : (scanned env s).fs.dirQueue.getLast? with
  | none =>
    rw [init_of_none h]
    exact hfill (scanned env s) rfl (hscan h) mediaTs
  | some d =>
    rw [init_of_some h]
    have hk := (hload d h).and (loadPieces_offRemoval env (env.utc s.reads) d.path (opened d (scanned env s)))
    refine WP.seq (hk.mono (fun _ _ h => h) fun _ h => h.1) fun _ t ht => ?_
    have hr : t.reads = s.reads + 1 := congrArg (·.reads) ht.2
    refine WP.seq ((ht.1.and (resumePieces_reads mediaTs t)).mono (fun _ _ h => h) fun _ h => h.1) fun ts u hu => ?_
    exact hfill u (hu.2.trans hr) hu.1 ts

/-- Every handler keeps the invariant. -/
theorem writerProg (hI : Invariant env I P J) {s : World} (hs : I s) (e : WriterEvent) :
    (∀ t, writerProg env e s = .ret () t → I t) ∧ ∀ t, writerProg env e s = .run t → J t := by
  cases e with
  | alarm fuel =>
    have h := hI.onClockAlarm fuel hs
    exact ⟨fun t e => (h.ret e).1, fun t e => h.run e⟩
  | msg fuel m =>
    cases m with
    | writePiece _ piece _ mediaTs =>
      have h := hI.handleWritePiece fuel piece mediaTs hs
      exact ⟨fun t e => h.ret e, fun t e => h.run e⟩
    | updateHeader head body => exact ⟨fun t h => hI.update hs h, fun t h => absurd h handleUpdateHeader_not_run⟩
    | readerError =>
      have h := hI.handleReaderError fuel hs
      exact ⟨fun t e => (h.ret e).1, fun t e => h.run e⟩

end Invariant

/-! ## Runs -/

/-- The states of a run of the writer that began with `r`, the outcome of `Init`. -/
inductive Shows (env : Env) (r : Res World Nat) : World → Prop
  | between {mediaTs : Nat} {w t : World} :
    r = .ret mediaTs w → Reach (writerStep env) (fun _ _ => True) w t → Shows env r t
  | starting {t : World} : r = .run t → Shows env r t
  | during {mediaTs : Nat} {w s t : World} {e : WriterEvent} :
    r = .ret mediaTs w → Reach (writerStep env) (fun _ _ => True) w s → writerProg env e s = .run t → Shows env r t

namespace Invariant

variable {I P J : World → Prop}

/-- What holds of the writer holds in every state reached. -/
theorem reach (hI : Invariant env I P J) {w t : World} (hw : I w)
    (h : Reach (writerStep env) (fun _ _ => True) w t) : I t :=
  h.invariant I hw fun s e t hs _ hstep => by
    obtain ⟨_, hp⟩ := Res.returned_eq_some hstep
    exact (hI.writerProg hs e).1 t hp

/-- The calls of the reader change flags and counters only. -/
theorem foldl_post (hI : Invariant env I P J) (l : Bool) :
    ∀ (cs : List Call) {s : System}, I s.world → I (cs.foldl (post l) s).world
  | [], _, hs => hs
  | c :: cs, s, hs => by
    apply hI.foldl_post l cs
    cases c with
    | asyncWritePiece p seek ts =>
      rw [post]
      split
      · exact hI.inert hs ⟨rfl, rfl, rfl⟩
      · exact hs
    | asyncUpdateHeader head body => exact hs
    | readerError => exact hs

/-- Every step of the two parties keeps the invariant. -/
theorem systemStep (hI : Invariant env I P J) {s t : System} {e : Event} (hs : I s.world)
    (h : systemStep env s e = some t) : I t.world := by
  have hreader : ∀ e : Event, (readerStep s.reader e).map (applyReader s) = some t → I t.world := fun e h => by
    obtain ⟨out, -, rfl⟩ := Option.map_eq_some_iff.mp h
    exact hI.foldl_post _ out.2 hs
  cases e with
  | handle fuel =>
    rw [Impl.Cutter.systemStep] at h
    split at h
    · rename_i m rest hq
      obtain ⟨u, hu, rfl⟩ := Option.map_eq_some_iff.mp h
      obtain ⟨_, hu⟩ := Res.returned_eq_some hu
      exact (hI.writerProg hs (.msg fuel m)).1 u hu
    · cases h
  | alarm fuel =>
    obtain ⟨u, hu, rfl⟩ := Option.map_eq_some_iff.mp h
    obtain ⟨_, hu⟩ := Res.returned_eq_some hu
    exact (hI.writerProg hs (.alarm fuel)).1 u hu
  | tick => exact hreader .tick h
  | opened ok => exact hreader (.opened ok) h
  | data bytes => exact hreader (.data bytes) h
  | lost => exact hreader .lost h

/-- What `Init` establishes holds in all states shown. -/
theorem shows (hI : Invariant env I P J) {r : Res World Nat} {t : World} (hr : ∀ {mediaTs w}, r = .ret mediaTs w → I w)
    (hr' : ∀ {w}, r = .run w → J w) (h : Shows env r t) : J t := by
  cases h with
  | between h₀ h => exact hI.running t (hI.reach (hr h₀) h)
  | starting h => exact hr' h
  | during h₀ h hp => exact (hI.writerProg (hI.reach (hr h₀) h) _).2 _ hp

end Invariant

/-- A state computed by a list of events. -/
theorem Shows.of_runEvents {r : Res World Nat} {es : List WriterEvent} {t : World}
    (h : r.andThen (fun _ w => runEvents (writerStep env) w es) = some t) : Shows env r t := by
  obtain ⟨mediaTs, w, hw, h⟩ := Res.andThen_eq_some h
  exact .between hw (.of_runIf h)

end XH.Proof.Cutter
