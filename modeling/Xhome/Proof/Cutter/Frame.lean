import Xhome.Impl.Cutter.System

/-!
# What writing blocks leaves alone

The code that works on files moves the state along every relation its steps do
(`AttemptMoves`, `RemovalMoves`), and keeps the rest of the state (`offFiles`).
Everything below the handlers (`writeBlock`, `WriteOneSpecialPiece`, the fill
loops, removing files) keeps the fields of the writer apart from its id and
media time, the cue point, the header it is filling in and the report alarm
(`kept`).
-/

namespace XH.Proof.Cutter

open XH.Impl.Cutter

/-! ## Files, along a relation -/

/-- What a relation between states needs, to hold from before to after a file is
written. -/
structure WriteMoves (R : World → World → Prop) : Prop where
  disk : ∀ f : Tree → Tree, Moves R (diskOp f)
  written : ∀ f : World → List Written, Moves R (Prog.modify fun s => { s with fs := { s.fs with written := f s } })

/-- The same for an attempt, which may enter a directory. -/
structure AttemptMoves (R : World → World → Prop) : Prop extends WriteMoves R where
  attempts : Moves R (Prog.modify fun s => { s with fs := { s.fs with attempts := s.fs.attempts + 1 } })
  path : ∀ p : Path, Moves R (Prog.modify fun s => { s with fs := { s.fs with filePath := p } })
  enter : ∀ f : World → List DirInfo,
    Moves R (Prog.modify fun s => { s with fs := { s.fs with dirQueue := f s, pieceFileQueue := [] } })

/-- The same for removing files. -/
structure RemovalMoves (R : World → World → Prop) (env : Env) : Prop where
  remove : ∀ path : Path, Moves R (tryRemove env path)
  queue : ∀ f : World → List PieceFileInfo,
    Moves R (Prog.modify fun s => { s with fs := { s.fs with pieceFileQueue := f s } })

section
variable {R : World → World → Prop} [Std.Refl R] [IsTrans World R] {env : Env}

theorem renameBlock_moves (h : WriteMoves R) (env : Env) (kind : BlockKind) (path : Path) :
    Moves R (renameBlock env kind path) :=
  .bind .read fun _ => .ite (.bind (h.disk _) fun _ => .bind (h.disk _) fun _ => h.written _)
    (.bind (h.disk _) fun _ => h.written _)

theorem writeFile_moves (h : WriteMoves R) (env : Env) (kind : BlockKind) (content : List Byte) (e : Int) (fault : Fault)
    (path : Path) : Moves R (writeFile env kind content e fault path) := by
  refine .ite (.pure _) (.bind (h.disk _) fun _ => .ite (.pure _) (.bind (h.disk _) fun _ => ?_))
  split
  · exact .ite (.bind (h.disk _) fun _ => .pure _) (.pure _)
  · exact .ite (.pure _) (.bind (renameBlock_moves h env kind path) fun _ => .pure _)

theorem createDirectories_moves (h : WriteMoves R) : ∀ (ns : List Name) (p : Path), Moves R (createDirectories p ns)
  | [], _ => .pure ()
  | _ :: ns, _ => .bind .read fun _ => .ite
    (.bind (h.disk _) fun _ => createDirectories_moves h ns _) (createDirectories_moves h ns _)

theorem getFilePathName_moves (h : AttemptMoves R) (fault : Fault) : Moves R (getFilePathName fault) :=
  .bind .read fun _ => .ite
    (.bind (h.path _) fun _ => .ite (.pure _)
      (.bind (createDirectories_moves h.toWriteMoves _ _) fun _ => .bind (h.enter _) fun _ => .pure _))
    (.pure _)

theorem attempt_moves (h : AttemptMoves R) (env : Env) (kind : BlockKind) (data : Piece) (e : Int) :
    Moves R (attempt env kind data e) :=
  .bind .read fun _ => .bind h.attempts fun _ => .bind (getFilePathName_moves h _) fun _ =>
    .bind (writeFile_moves h.toWriteMoves env kind _ _ _ _) fun _ => .pure _

theorem writeLoop_moves (h : AttemptMoves R) (hd : ∀ n, Moves R (decreasePiece env n)) (kind : BlockKind) (data : Piece)
    (len : Nat) : ∀ (fuel : Nat) (e : Int) (n : Nat), Moves R (writeLoop env kind data len fuel e n)
  | 0, _, _ => .running
  | fuel + 1, _, _ => .bind (attempt_moves h env kind data _) fun _ => .ite
    (.ite (.bind (hd _) fun _ => writeLoop_moves h hd kind data len fuel _ _)
      (writeLoop_moves h hd kind data len fuel _ _))
    (.pure _)

theorem decreaseLoop_moves (h : RemovalMoves R env) (n : Nat) :
    ∀ (l : List PieceFileInfo) (m : Nat), Moves R (decreaseLoop env n l m)
  | [], _ => .pure ()
  | _ :: rest, _ => .ite
    (.bind .read fun _ => .ite
      (.bind (h.remove _) fun _ => .bind (h.queue _) fun _ => decreaseLoop_moves h n rest _)
      (.bind (.pure _) fun _ => .bind (h.queue _) fun _ => decreaseLoop_moves h n rest _))
    (.pure ())

theorem decreasePiece_moves (h : RemovalMoves R env) (n : Nat) : Moves R (decreasePiece env n) :=
  .bind .read fun _ => decreaseLoop_moves h n _ _

theorem dropExpired_moves (h : RemovalMoves R env) (expired : PieceFileInfo → Bool) :
    ∀ l : List PieceFileInfo, Moves R (dropExpired env expired l)
  | [] => .pure ()
  | _ :: rest => .ite (.bind (h.remove _) fun _ => .bind (h.queue _) fun _ => dropExpired_moves h expired rest) (.pure ())

theorem removeTmps_moves (h : RemovalMoves R env) (dir : Path) : ∀ ns : List Name, Moves R (removeTmps env dir ns)
  | [] => .pure _
  | _ :: ns => .ite (.bind (h.remove _) fun _ => .ite (removeTmps_moves h dir ns) (.pure _)) (removeTmps_moves h dir ns)

theorem loadPieces_moves (h : RemovalMoves R env) (nowId : Nat) (dir : Path) : Moves R (loadPieces env nowId dir) :=
  .bind .read fun _ => .bind (removeTmps_moves h dir _) fun _ => .bind (h.queue _) fun _ =>
    .bind .read fun _ => dropExpired_moves h _ _

end

/-! ## Files -/

/-- The state without the queues of files and the disk. -/
def offFiles (s : World) : Writer × Nat × List Bool := (s.w, s.reads, s.reports)

theorem offFiles_attempts : AttemptMoves (SameValue offFiles) where
  disk _ := .modify fun _ => rfl
  written _ := .modify fun _ => rfl
  attempts := .modify fun _ => rfl
  path _ := .modify fun _ => rfl
  enter _ := .modify fun _ => rfl

/-- The state without what removing files changes. -/
def offRemoval (s : World) : World :=
  { s with fs := { s.fs with disk := ⟨[], []⟩, history := [], pieceFileQueue := [], removes := 0 } }

theorem offFiles_of_offRemoval {α : Type} {m : Prog World α} (h : Keeps offRemoval m) : Keeps offFiles m :=
  h.comp offFiles

theorem tryRemove_offRemoval (env : Env) (path : Path) : Keeps offRemoval (tryRemove env path) :=
  .bind .read fun _ => .bind (.modify fun _ => rfl) fun _ =>
    .ite (.pure _) (.bind (.modify fun _ => rfl) fun _ => .pure _)

theorem offRemoval_removal (env : Env) : RemovalMoves (SameValue offRemoval) env :=
  ⟨tryRemove_offRemoval env, fun _ => .modify fun _ => rfl⟩

theorem decreasePiece_offRemoval (env : Env) (n : Nat) : Keeps offRemoval (decreasePiece env n) :=
  moves_sameValue.mp (decreasePiece_moves (offRemoval_removal env) n)

theorem dropExpired_offRemoval (env : Env) (expired : PieceFileInfo → Bool) (l : List PieceFileInfo) :
    Keeps offRemoval (dropExpired env expired l) :=
  moves_sameValue.mp (dropExpired_moves (offRemoval_removal env) expired l)

theorem removeTmps_offRemoval (env : Env) (dir : Path) (ns : List Name) : Keeps offRemoval (removeTmps env dir ns) :=
  moves_sameValue.mp (removeTmps_moves (offRemoval_removal env) dir ns)

theorem loadPieces_offRemoval (env : Env) (nowId : Nat) (dir : Path) : Keeps offRemoval (loadPieces env nowId dir) :=
  moves_sameValue.mp (loadPieces_moves (offRemoval_removal env) nowId dir)

theorem writeLoop_offFiles (env : Env) (kind : BlockKind) (data : Piece) (len fuel : Nat) (e : Int) (n : Nat) :
    Keeps offFiles (writeLoop env kind data len fuel e n) := by
  have hd : ∀ n, Keeps offFiles (decreasePiece env n) := fun n => offFiles_of_offRemoval (decreasePiece_offRemoval env n)
  exact moves_sameValue.mp (writeLoop_moves offFiles_attempts hd kind data len fuel e n)

/-- The queue holds entries with `P`. -/
def Queued (P : PieceFileInfo → Prop) (s : World) : Prop := ∀ f ∈ s.fs.pieceFileQueue, P f

theorem tryRemove_queued (env : Env) (path : Path) {P : PieceFileInfo → Prop} {s : World} (hq : Queued P s) :
    WP (tryRemove env path) s (fun _ t => Queued P t) (Queued P) := by
  refine .bind (.get (.bind (.modify ?_)))
  split
  · exact .pure hq
  · exact .bind (.modify (.pure hq))

/-- Old pieces leave the queue from its front. -/
theorem decreaseLoop_queued (env : Env) (n : Nat) {P : PieceFileInfo → Prop} :
    ∀ {l : List PieceFileInfo} (m : Nat) {s : World}, (∀ f ∈ l, P f) → Queued P s →
      WP (decreaseLoop env n l m) s (fun _ t => Queued P t) (Queued P)
  | [], _, _, _, hq => .pure hq
  | f :: rest, m, s, hl, hq => by
    have hr : ∀ f ∈ rest, P f := fun f h => hl f (List.mem_cons_of_mem _ h)
    rw [decreaseLoop]
    split
    · refine .bind (.get ?_)
      split
      · exact .seq (tryRemove_queued env f.path hq) fun _ t _ => .bind (.modify (decreaseLoop_queued env n _ hr hr))
      · exact .bind (.pure (.bind (.modify (decreaseLoop_queued env n _ hr hr))))
    · exact .pure hq

/-- Expired pieces leave the queue from its front. -/
theorem dropExpired_queued (env : Env) (expired : PieceFileInfo → Bool) {P : PieceFileInfo → Prop} :
    ∀ {l : List PieceFileInfo} {s : World}, (∀ f ∈ l, P f) → Queued P s →
      WP (dropExpired env expired l) s (fun _ t => Queued P t) (Queued P)
  | [], _, _, hq => .pure hq
  | f :: rest, s, hl, hq => by
    have hr : ∀ f ∈ rest, P f := fun f h => hl f (List.mem_cons_of_mem _ h)
    rw [dropExpired]
    split
    · exact .seq (tryRemove_queued env f.path hq) fun _ t _ => .bind (.modify (dropExpired_queued env expired hr hr))
    · exact .pure hq

/-! ## Blocks -/

/-- The fields that only the handlers themselves change. -/
def keptOf (w : Writer) : Writer :=
  { w with
    currentPieceId := 0, checkpointTag := none, curMediaTs := 0, reportAlarm := 0
    blockHeader := ⟨.replicate 16 0, .replicate 16 0, 0, 0, 0, 0, .replicate 338 0⟩ }

def kept (s : World) : Writer := keptOf s.w

theorem kept_of_offFiles {α : Type} {m : Prog World α} (h : Keeps offFiles m) : Keeps kept m :=
  h.comp fun r => keptOf r.1

/-- The state after a reading of the clock. -/
def ticked (s : World) : World := { s with reads := s.reads + 1 }

theorem getUTC_apply (env : Env) (s : World) : getUTC env s = .ret (env.utc s.reads) (ticked s) := rfl

theorem getUTC_kept (env : Env) : Keeps kept (getUTC env) := fun _ => WP.of_ret rfl rfl

theorem cuePoint_kept : Keeps kept cuePoint := by
  refine .bind .read fun s => ?_
  split
  · exact .ite (.bind (.modify fun _ => rfl) fun _ => .pure _) (.pure _)
  · exact .pure _

theorem writeBlock_kept (env : Env) (fuel : Nat) (kind : BlockKind) (data : Piece) (len n : Nat) :
    Keeps kept (writeBlock env fuel kind data len n) :=
  .bind (.modify fun _ => rfl) fun _ => .bind (kept_of_offFiles (writeLoop_offFiles env kind data _ fuel _ _)) fun _ => .modify fun _ => rfl

theorem offair_kept (specialType : Nat) : Keeps kept (offair specialType) :=
  .bind .read fun _ => .ite (.bind (.modify fun _ => rfl) fun _ => .pure _) (.pure _)

theorem writeOneSpecialPiece_kept (env : Env) (fuel specialType : Nat) :
    Keeps kept (writeOneSpecialPiece env fuel specialType) :=
  .ite (.bind cuePoint_kept fun _ => .bind (offair_kept _) fun _ => .bind .read fun _ =>
    writeBlock_kept env fuel _ _ _ _) (.pure ())

theorem padLoop_kept (env : Env) (specialType : Nat) : ∀ fuel, Keeps kept (padLoop env specialType fuel)
  | 0 => .running
  | fuel + 1 => .bind (getUTC_kept env) fun _ => .bind .read fun _ =>
    .ite (.bind (writeOneSpecialPiece_kept env _ _) fun _ => padLoop_kept env specialType fuel) (.pure ())

theorem fillLoop_kept (env : Env) (nowId : Nat) : ∀ fuel, Keeps kept (fillLoop env nowId fuel)
  | 0 => .running
  | fuel + 1 => .bind .read fun _ =>
    .ite (.bind (writeOneSpecialPiece_kept env _ _) fun _ => fillLoop_kept env nowId fuel) (.pure ())

theorem reportReaderStatus_kept (b : Bool) : Keeps kept (reportReaderStatus b) := .modify fun _ => rfl

theorem writePiece_kept (env : Env) (fuel : Nat) (piece : Piece) : Keeps kept (writePiece env fuel piece) :=
  .bind cuePoint_kept fun _ => .bind .read fun _ => writeBlock_kept env fuel _ _ _ _

theorem checkPieceId_kept (env : Env) (fuel : Nat) : Keeps kept (checkPieceId env fuel) :=
  .bind (getUTC_kept env) fun _ => .bind .read fun _ => .ite (.pure _)
    (.ite (.bind (padLoop_kept env _ fuel) fun _ => .pure _) (.pure _))

theorem handleNormal_kept (env : Env) (fuel : Nat) (piece : Piece) : Keeps kept (handleNormal env fuel piece) :=
  .bind (checkPieceId_kept env fuel) fun _ => .ite (writePiece_kept env fuel piece) (.pure _)

theorem removeExpired_offRemoval (env : Env) (nowId : Nat) : Keeps offRemoval (removeExpired env nowId) :=
  .bind .read fun _ => dropExpired_offRemoval env _ _

theorem fillOffair_kept (env : Env) (nowId fuel : Nat) : Keeps kept (fillOffair env nowId fuel) :=
  .bind .read fun _ => .ite (.pure _) (fillLoop_kept env nowId fuel)

theorem countReport_kept : Keeps kept countReport :=
  .bind (.modify fun _ => rfl) fun _ => .bind .read fun _ => .ite (reportReaderStatus_kept _) (.pure _)

/-- The alarm fills and removes, and keeps the rest. -/
theorem onClockAlarm_kept (env : Env) (fuel : Nat) : Keeps kept (onClockAlarm env fuel) :=
  .bind (getUTC_kept env) fun _ => .bind (.modify fun _ => rfl) fun _ => .bind (getUTC_kept env) fun _ =>
    .bind (kept_of_offFiles (offFiles_of_offRemoval (removeExpired_offRemoval env _))) fun _ =>
      .bind (fillOffair_kept env _ fuel) fun _ => countReport_kept

theorem stat_of_kept {s t : World} (h : kept t = kept s) : t.w.stat = s.w.stat :=
  show (kept t).stat = (kept s).stat from congrArg Writer.stat h

/-! ## `Init` -/

theorem resumePieces_kept (mediaTs : Nat) : Keeps kept (resumePieces mediaTs) := by
  refine .bind .read fun s => ?_
  split
  · exact .bind (.modify fun _ => rfl) fun _ => .pure _
  · exact .pure _

/-- The state of `Init` behind `Scan dirs.` -/
def scanned (env : Env) (s : World) : World :=
  { s with
    reads := s.reads + 1
    w := { s.w with
      offairTag := some (env.onairTag.getD offairTagData), checkpointTag := some checkPointTagData
      headerPiece := [flvHeader], headerPieceLen := flvFileheaderTSize, dirPath := s.fs.filePath.dropLast }
    fs := { s.fs with
      filePath := [], dirQueue := (scanDirs s.fs.disk s.fs.filePath.dropLast s.w.guidStr).map (·.2) } }

/-- The newest directory is entered. -/
def opened (d : DirInfo) (s : World) : World := { s with fs := { s.fs with filePath := d.path } }

theorem init_of_some {env : Env} {fuel mediaTs : Nat} {s : World} {d : DirInfo}
    (h : (scanned env s).fs.dirQueue.getLast? = some d) :
    init env fuel mediaTs s = (do
      loadPieces env (env.utc s.reads) d.path
      let ts ← resumePieces mediaTs
      fillLoop env (env.utc s.reads) fuel
      pure ts : Prog World Nat) (opened d (scanned env s)) := by
  simp only [scanned, List.getLast?_map] at h
  simp only [init, Prog.bind_ret (getUTC_apply env s), loadTags, Prog.bind_ret (Prog.modify_apply _ _),
    Prog.bind_ret (Prog.get_apply _), ticked, h, List.getLast?_map]
  rfl

theorem init_of_none {env : Env} {fuel mediaTs : Nat} {s : World}
    (h : (scanned env s).fs.dirQueue.getLast? = none) :
    init env fuel mediaTs s = (do
      fillLoop env (env.utc s.reads) fuel
      pure mediaTs : Prog World Nat) (scanned env s) := by
  simp only [scanned, List.getLast?_map] at h
  simp only [init, Prog.bind_ret (getUTC_apply env s), loadTags, Prog.bind_ret (Prog.modify_apply _ _),
    Prog.bind_ret (Prog.get_apply _), ticked, h, List.getLast?_map]
  rfl

/-- `Init` does not touch the state for pieces. -/
theorem init_stat (env : Env) (fuel mediaTs : Nat) : Keeps (fun s => s.w.stat) (init env fuel mediaTs) := by
  have hk : ∀ {α : Type} {m : Prog World α}, Keeps kept m → Keeps (fun s => s.w.stat) m := fun h =>
    h.comp Writer.stat
  intro s
  cases h : (scanned env s).fs.dirQueue.getLast? with
  | none =>
    unfold WP
    rw [init_of_none h]
    exact Keeps.bind (hk (fillLoop_kept env _ _)) (fun _ => .pure _) (scanned env s)
  | some d =>
    unfold WP
    rw [init_of_some h]
    exact Keeps.bind (hk (kept_of_offFiles (offFiles_of_offRemoval (loadPieces_offRemoval env _ _)))) (fun _ =>
      .bind (hk (resumePieces_kept _)) fun _ => .bind (hk (fillLoop_kept env _ _)) fun _ => .pure _)
      (opened d (scanned env s))

/-! ## The handlers -/

/-- The state behind `CPieceWriter::HandleWritePiece`. -/
def afterBase (mediaTs : Nat) (s : World) : World :=
  { s with
    reports := if s.w.readerOk then s.reports else s.reports ++ [true]
    w := { s.w with
      reportAlarm := if s.w.readerOk then s.w.reportAlarm else i32 s.w.statusReportPeriod
      readerOk := true
      writingPieceNum := s.w.writingPieceNum - 1
      curMediaTs := if s.w.stat = .normal then mediaTs else s.w.curMediaTs } }

theorem baseHandleWritePiece_apply (mediaTs : Nat) (s : World) :
    baseHandleWritePiece mediaTs s = .ret () (afterBase mediaTs s) := by
  obtain ⟨w, fs, reads, reports⟩ := s
  obtain ⟨_, _, _, _, _, _, _, _, _, stat, readerOk, _, _, _, _, _, _⟩ := w
  cases readerOk <;> cases stat <;> rfl

/-- The first piece is stored, and nothing is written. -/
theorem handleWritePiece_firstPiece (env : Env) (fuel : Nat) (piece : Piece) (mediaTs : Nat) {s : World}
    (h : s.w.stat = .firstPiece) :
    ∃ t, handleWritePiece env fuel piece mediaTs s = .ret () t ∧ t.w.stat = .secondPiece ∧
      t.w.headerPiece = piece ∧ t.fs = s.fs := by
  have hb : (afterBase mediaTs s).w.stat = .firstPiece := h
  refine ⟨{ afterBase mediaTs s with w := { (afterBase mediaTs s).w with
    headerPiece := piece, headerPieceLen := u32 (Piece.size piece), stat := .secondPiece } }, ?_, rfl, rfl, rfl⟩
  · rw [handleWritePiece, Prog.bind_ret (baseHandleWritePiece_apply mediaTs s), Prog.bind_ret (Prog.get_apply _), hb]
    rfl

theorem startPieces_stat (env : Env) (fuel : Nat) {s : World} (h : s.w.stat ≠ .firstPiece) :
    WP (startPieces env fuel) s (fun _ t => t.w.stat ≠ .firstPiece) (fun _ => True) := by
  refine .seq (P := fun _ t => t.w.stat ≠ .firstPiece) (.of_ret rfl h) fun now t ht => ?_
  refine .seq (P := fun _ t => t.w.stat ≠ .firstPiece) (.get ht) fun _ t ht => ?_
  split
  · exact .pure ht
  · have hn : ∀ u : World, WP (do Prog.modify fun s => { s with w := { s.w with stat := .normal } }; pure true) u
        (fun _ t => t.w.stat ≠ .firstPiece) (fun _ => True) := fun u => .of_ret rfl (fun e => by cases e)
    split
    · exact .seq ((padLoop_kept env 0 fuel t).mono (fun _ _ e => e) fun _ _ => trivial) fun _ u _ => hn u
    · exact .seq (P := fun _ _ => True) (.of_ret rfl trivial) fun _ u _ => hn _

/-- A later piece leaves the writer in its second or normal state. -/
theorem handleWritePiece_stat (env : Env) (fuel : Nat) (piece : Piece) (mediaTs : Nat) {s : World}
    (h : s.w.stat ≠ .firstPiece) :
    WP (handleWritePiece env fuel piece mediaTs) s (fun _ t => t.w.stat ≠ .firstPiece) (fun _ => True) := by
  have hn : ∀ u : World, u.w.stat ≠ .firstPiece →
      WP (handleNormal env fuel piece) u (fun _ t => t.w.stat ≠ .firstPiece) (fun _ => True) := fun u hu =>
    (handleNormal_kept env fuel piece u).mono (fun _ _ e => (stat_of_kept e).trans_ne hu) fun _ _ => trivial
  refine .seq (P := fun _ t => t = afterBase mediaTs s) (.of_ret (baseHandleWritePiece_apply mediaTs s) rfl) ?_
  rintro - _ rfl
  refine .seq (P := fun a t => t = afterBase mediaTs s ∧ a = t) (.get ⟨rfl, rfl⟩) ?_
  rintro _ _ ⟨rfl, rfl⟩
  have hb : (afterBase mediaTs s).w.stat ≠ .firstPiece := h
  split
  · exact absurd ‹_› hb
  · refine .seq (startPieces_stat env fuel hb) fun go t ht => ?_
    split
    · exact hn t ht
    · exact .pure ht
  · exact hn _ hb

/-- `HandleWritePiece` up to the block; whether one is written. -/
def beforeWrite (env : Env) (fuel mediaTs : Nat) : Prog World Bool := do
  baseHandleWritePiece mediaTs
  let s ← Prog.get
  match s.w.stat with
  | .firstPiece => pure false
  | .secondPiece => do
    if ← startPieces env fuel then checkPieceId env fuel else pure false
  | .normal => checkPieceId env fuel

/-- `HandleWritePiece` of a piece that is not stored as the header. -/
theorem handleWritePiece_eq {env : Env} {fuel : Nat} {piece : Piece} {mediaTs : Nat} {s : World}
    (h : s.w.stat ≠ .firstPiece) :
    handleWritePiece env fuel piece mediaTs s =
      (do if ← beforeWrite env fuel mediaTs then writePiece env fuel piece : Prog World Unit) s := by
  have hb : (afterBase mediaTs s).w.stat = s.w.stat := rfl
  have hm : ∀ {α : Type} (f : Unit → Prog World α),
      (baseHandleWritePiece mediaTs >>= f) s = f () (afterBase mediaTs s) := fun f =>
    Prog.bind_ret (baseHandleWritePiece_apply mediaTs s)
  rw [handleWritePiece, hm, Prog.bind_ret (Prog.get_apply _), Prog.bind_apply, beforeWrite, hm,
    Prog.bind_ret (Prog.get_apply _)]
  cases hst : s.w.stat with
  | firstPiece => exact absurd hst h
  | normal => rw [hb, hst]; rfl
  | secondPiece =>
    rw [hb, hst]
    simp only [Prog.bind_apply]
    cases startPieces env fuel (afterBase mediaTs s) with
    | run t => rfl
    | ub => rfl
    | ret go t =>
      cases go with
      | false => rfl
      | true => rfl

/-- The guards keep the header piece. -/
theorem checkPieceId_headerPiece (env : Env) (fuel : Nat) :
    Keeps (fun s => s.w.headerPiece) (checkPieceId env fuel) :=
  (checkPieceId_kept env fuel).comp Writer.headerPiece

theorem startPieces_headerPiece (env : Env) (fuel : Nat) :
    Keeps (fun s => s.w.headerPiece) (startPieces env fuel) := by
  have hn : Keeps (fun s => s.w.headerPiece)
      (do Prog.modify fun s => { s with w := { s.w with stat := .normal } }; pure true : Prog World Bool) :=
    .bind (.modify fun _ => rfl) fun _ => .pure _
  have hu : Keeps (fun s => s.w.headerPiece) (getUTC env) := (getUTC_kept env).comp Writer.headerPiece
  exact .bind hu fun _ => .bind .read fun s => .ite (.pure _)
    (.ite (.bind ((padLoop_kept env 0 fuel).comp Writer.headerPiece) fun _ => hn)
      (.bind hu fun _ => .bind (.modify fun _ => rfl) fun _ => hn))

theorem beforeWrite_headerPiece (env : Env) (fuel mediaTs : Nat) :
    Keeps (fun s => s.w.headerPiece) (beforeWrite env fuel mediaTs) := by
  refine .bind (fun s => .of_ret (baseHandleWritePiece_apply mediaTs s) rfl) fun _ => .bind .read fun s => ?_
  split
  · exact .pure _
  · exact .bind (startPieces_headerPiece env fuel) fun _ => .ite (checkPieceId_headerPiece env fuel) (.pure _)
  · exact checkPieceId_headerPiece env fuel

/-- A piece that is not stored as the header leaves the header piece alone. -/
theorem handleWritePiece_headerPiece {env : Env} {fuel : Nat} {piece : Piece} {mediaTs : Nat} {s : World}
    (h : s.w.stat ≠ .firstPiece) :
    WP (handleWritePiece env fuel piece mediaTs) s (fun _ t => t.w.headerPiece = s.w.headerPiece)
      (fun t => t.w.headerPiece = s.w.headerPiece) := by
  have hw : Keeps (fun s => s.w.headerPiece) (writePiece env fuel piece) := (writePiece_kept env fuel piece).comp Writer.headerPiece
  unfold WP
  rw [handleWritePiece_eq h]
  exact Keeps.bind (beforeWrite_headerPiece env fuel mediaTs) (fun _ => .ite hw (.pure _)) s

/-- The state in which `HandleReaderError` begins to fill. -/
def afterError (s : World) : World :=
  { s with
    reports := s.reports ++ [false]
    reads := s.reads + 1
    w := { s.w with reportAlarm := i32 s.w.statusReportPeriod, readerOk := false, stat := .firstPiece } }

theorem handleReaderError_eq (env : Env) (fuel : Nat) (s : World) :
    handleReaderError env fuel s = fillLoop env (env.utc s.reads) fuel (afterError s) := rfl

theorem handleReaderError_stat (env : Env) (fuel : Nat) (s : World) :
    WP (handleReaderError env fuel) s (fun _ t => t.w.stat = .firstPiece) (fun _ => True) := by
  unfold WP
  rw [handleReaderError_eq]
  have hk := fillLoop_kept env (env.utc s.reads) fuel (afterError s)
  exact hk.mono (fun _ _ e => stat_of_kept e) fun _ _ => trivial

/-- The writer with another header piece. -/
def withHeader (s : World) (headerPiece : Piece) (headerPieceLen : Nat) : World :=
  { s with w := { s.w with headerPiece, headerPieceLen } }

/-- `HandleUpdateHeader` replaces a tag of the header piece or appends one. -/
theorem handleUpdateHeader_cases {head body : Buffer} {s t : World}
    (h : handleUpdateHeader head body s = .ret () t) :
    ∃ first tags tags' removed, s.w.headerPiece = first :: tags ∧
      replaceTag (tagType head) (setTagTs head 0) body tags = some (tags', removed) ∧
      ((∃ n, removed = some n ∧ t = withHeader s (first :: tags')
          (u32 (sub32 s.w.headerPieceLen n + u32 (head.length + body.length)))) ∨
        (removed = none ∧ t = withHeader s (first :: tags' ++ [setTagTs head 0, body])
          (u32 (s.w.headerPieceLen + u32 (head.length + body.length))))) := by
  cases hp : s.w.headerPiece with
  | nil => simp only [handleUpdateHeader, Prog.bind_ret (Prog.get_apply s), hp] at h; cases h
  | cons first tags =>
    simp only [handleUpdateHeader, Prog.bind_ret (Prog.get_apply s), hp, tagType_setTagTs, length_setTagTs] at h
    cases hr : replaceTag (tagType head) (setTagTs head 0) body tags with
    | none => rw [hr] at h; cases h
    | some r =>
      obtain ⟨tags', removed⟩ := r
      refine ⟨first, tags, tags', removed, rfl, hr, ?_⟩
      cases removed with
      | none => rw [hr] at h; cases h; exact .inr ⟨rfl, rfl⟩
      | some n => rw [hr] at h; cases h; exact .inl ⟨n, rfl, rfl⟩

theorem handleUpdateHeader_stat {head body : Buffer} {s t : World}
    (h : handleUpdateHeader head body s = .ret () t) : t.w.stat = s.w.stat := by
  obtain ⟨_, _, _, _, -, -, ⟨_, -, rfl⟩ | ⟨-, rfl⟩⟩ := handleUpdateHeader_cases h <;> rfl

/-! ## An environment in which nothing fails -/

def quiet (utc : Nat → Nat) : Env where
  utc := utc
  faults := fun _ => .none
  removeThrows := fun _ => false
  removedSize := fun _ => 0
  md5 := fun _ => .replicate 16 0
  onairTag := none

def zeroed : Uninit := ⟨.replicate 16 0, .replicate 16 0, .replicate 338 0⟩

end XH.Proof.Cutter
