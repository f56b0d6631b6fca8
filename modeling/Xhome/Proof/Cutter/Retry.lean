import Xhome.Proof.Cutter.Attempt

/-!
# Blocks and failing attempts

`WriteOneSpecialPiece` and the write of `HandleWritePiece` as `writeBlock` from
the state behind the cue point (`cued`) and the off-air tag (`specialStart`).
Both routines return exactly if the first attempt to write the
file succeeds (`writes_iff_first_attempt`): an attempt that fails sets
`error_value`, which no later attempt of the loop resets.
-/

namespace XH.Proof.Cutter

open XH.Impl.Cutter

/-- The cue point of the block at hand. -/
def cueOf (w : Writer) : Piece :=
  match w.checkpointTag with
  | some tag => if w.needCheckPointTag then [setCheckId tag w.currentPieceId] else []
  | none => []

/-- `checkpoint_tag_` with the cue point written into it. -/
def cueTag (w : Writer) : Option Buffer :=
  if w.needCheckPointTag then w.checkpointTag.map (setCheckId · w.currentPieceId) else w.checkpointTag

/-- The state behind the cue point. -/
def cued (s : World) : World := { s with w := { s.w with checkpointTag := cueTag s.w } }

theorem cuePoint_apply (s : World) : cuePoint s = .ret (cueOf s.w) (cued s) := by
  obtain ⟨w, fs, reads, reports⟩ := s
  rw [cuePoint, Prog.bind_ret (Prog.get_apply _)]
  cases hc : w.checkpointTag with
  | none =>
    have e : cued ⟨w, fs, reads, reports⟩ = ⟨w, fs, reads, reports⟩ := by
      simp only [cued, cueTag, hc, Option.map_none, ite_self]
      rw [← hc]
    rw [e]
    simp only [cueOf, hc]
    rfl
  | some tag =>
    by_cases hd : w.needCheckPointTag = true
    · simp only [cueOf, cued, cueTag, hc, hd, ite_true, Option.map_some]
      rfl
    · have e : cued ⟨w, fs, reads, reports⟩ = ⟨w, fs, reads, reports⟩ := by
        simp only [cued, cueTag, hd, Bool.false_eq_true, ite_false]
      rw [e]
      simp only [cueOf, hc, hd, Bool.false_eq_true, ite_false]
      rfl

/-- The off-air tag of a special piece. -/
def offairOf (w : Writer) (specialType : Nat) : Piece := if specialType = 0 then w.offairTag.toList else []

/-- The state in which the block of a special piece is written. -/
def specialStart (specialType : Nat) (s : World) : World :=
  { cued s with w := { (cued s).w with
      curMediaTs := if specialType = 0 then nextMediaTs s.w else s.w.curMediaTs } }

/-- The data of a special piece. -/
def specialData (w : Writer) (specialType : Nat) : Piece := flvHeader :: (cueOf w ++ offairOf w specialType)

theorem offair_apply (specialType : Nat) (s : World) :
    offair specialType (cued s) = .ret (offairOf s.w specialType) (specialStart specialType s) := by
  rw [offair, Prog.bind_ret (Prog.get_apply _)]
  by_cases h : specialType = 0
  · simp only [h, ite_true, offairOf, specialStart]
    rfl
  · simp only [h, ite_false, offairOf, specialStart]
    rfl

/-- `WriteOneSpecialPiece` writes one block. -/
theorem writeOneSpecialPiece_eq (env : Env) (fuel : Nat) {specialType : Nat} (h : specialType ≤ 1) (s : World) :
    writeOneSpecialPiece env fuel specialType s =
      writeBlock env fuel (.special specialType) (specialData s.w specialType)
        (u32 (Piece.size (specialData s.w specialType))) (env.removedSize s.fs.attempts)
        (specialStart specialType s) := by
  rw [writeOneSpecialPiece, if_pos h, Prog.bind_ret (cuePoint_apply s), Prog.bind_ret (offair_apply specialType s),
    Prog.bind_ret (Prog.get_apply _)]
  rfl

/-- The data of the block of a piece. -/
def pieceData (w : Writer) (piece : Piece) : Piece := w.headerPiece ++ cueOf w ++ piece

/-- Its length by `header_piece_len_`. -/
def pieceLen (w : Writer) (piece : Piece) : Nat := u32 (w.headerPieceLen + Piece.size (cueOf w) + Piece.size piece)

theorem writePiece_eq (env : Env) (fuel : Nat) (piece : Piece) (s : World) :
    writePiece env fuel piece s =
      writeBlock env fuel (.normal s.w.headerPiece piece) (pieceData s.w piece) (pieceLen s.w piece) 0 (cued s) := by
  rw [writePiece, Prog.bind_ret (cuePoint_apply s), Prog.bind_ret (Prog.get_apply _)]
  rfl

/-- The guards of `STAT_NORMAL` where nothing is padded. -/
theorem checkPieceId_apply (env : Env) (fuel : Nat) {s : World}
    (h : ¬ s.w.currentPieceId > u32 (env.utc s.reads + s.w.pieceScale))
    (hp : ¬ (s.w.needCheckID = true ∧ s.w.slotsBehind (env.utc s.reads) > s.w.padThreshold)) :
    checkPieceId env fuel s = .ret true (ticked s) := by
  have h' : ¬ (ticked s).w.currentPieceId > u32 (env.utc s.reads + (ticked s).w.pieceScale) := h
  have hp' : ¬ ((ticked s).w.needCheckID = true ∧
    (ticked s).w.slotsBehind (env.utc s.reads) > (ticked s).w.padThreshold) := hp
  rw [checkPieceId, Prog.bind_ret (getUTC_apply env s), Prog.bind_ret (Prog.get_apply _), if_neg h']
  dsimp only
  rw [if_neg hp']
  rfl

/-- `STAT_NORMAL` once the guards have let the piece through. -/
theorem handleWritePiece_normal {env : Env} {fuel : Nat} (piece : Piece) {mediaTs : Nat} {s u : World}
    (hs : s.w.stat = .normal) (hu : checkPieceId env fuel (afterBase mediaTs s) = .ret true u) :
    handleWritePiece env fuel piece mediaTs s = writePiece env fuel piece u := by
  have hb : (afterBase mediaTs s).w.stat = .normal := hs
  rw [handleWritePiece, Prog.bind_ret (baseHandleWritePiece_apply mediaTs s), Prog.bind_ret (Prog.get_apply _), hb]
  exact Prog.bind_ret hu

/-- The file of the block at hand is there with its whole content, its entry is
the last one of the queue, and the id has moved on. -/
structure Finished (env : Env) (len : Nat) (data : Piece) (s t : World) : Prop where
  read : t.fs.disk.read (blockPath s) = some (blockContent (headed env len data s).w data)
  entry : t.fs.pieceFileQueue = (if s.entersDir then [] else s.fs.pieceFileQueue) ++
    [⟨s.w.currentPieceId, blockPath s, u32 (len + flvBlockHeaderTSize)⟩]
  next : t.w.currentPieceId = u32 (s.w.currentPieceId + s.w.pieceScale)

theorem Wrote.finished {env : Env} {kind : BlockKind} {data : Piece} {len : Nat} {s t : World}
    (h : Wrote env kind data len s t) : Finished env len data s t :=
  ⟨h.read, h.pieceFileQueue, by rw [h.w]⟩

/-- A block is written and finished exactly if its first attempt succeeds. -/
theorem writeBlock_finished_iff (env : Env) (fuel : Nat) (kind : BlockKind) (data : Piece) (len n : Nat) (s : World) :
    (∃ t, writeBlock env (fuel + 1) kind data len n s = .ret () t ∧ Finished env len data s t) ↔ ¬ Fails env s := by
  constructor
  · rintro ⟨t, ht, -⟩
    exact (wrote_of_writeBlock ht).1
  · intro h
    obtain ⟨t, ht, hs⟩ := writeBlock_ret env fuel kind data len n h
    exact ⟨t, ht, hs.finished⟩

/-- `WriteOneSpecialPiece`, and `HandleWritePiece` in `STAT_NORMAL` once its
guards let the piece through in the state `u`, return with the block finished
exactly if the first attempt to write its file succeeds. -/
theorem writes_iff_first_attempt (env : Env) (fuel : Nat) :
    (∀ (specialType : Nat) (s : World), specialType ≤ 1 →
      ((∃ t, writeOneSpecialPiece env (fuel + 1) specialType s = .ret () t ∧
          Finished env (u32 (Piece.size (specialData s.w specialType))) (specialData s.w specialType)
            (specialStart specialType s) t) ↔ ¬ Fails env s)) ∧
    (∀ (piece : Piece) (mediaTs : Nat) (s u : World), s.w.stat = .normal →
      checkPieceId env (fuel + 1) (afterBase mediaTs s) = .ret true u →
      ((∃ t, handleWritePiece env (fuel + 1) piece mediaTs s = .ret () t ∧
          Finished env (pieceLen u.w piece) (pieceData u.w piece) (cued u) t) ↔ ¬ Fails env u)) := by
  constructor
  · intro specialType s h
    rw [writeOneSpecialPiece_eq env _ h]
    exact writeBlock_finished_iff env fuel _ _ _ _ (specialStart specialType s)
  · intro piece mediaTs s u hs hu
    rw [handleWritePiece_normal piece hs hu, writePiece_eq]
    exact writeBlock_finished_iff env fuel _ _ _ _ (cued u)

/-- Both routines at the time 1000 on an empty disk, nothing failing. -/
theorem writes_first_attempt_quiet :
    let env := quiet fun _ => 1000
    let s : World := construct zeroed [] ['g'] 1 100 60 ⟨[], []⟩
    let n : World := { s with w := { s.w with stat := .normal, currentPieceId := 1000 } }
    (∃ t, writeOneSpecialPiece env 1 0 n = .ret () t ∧
      Finished env (u32 (Piece.size (specialData n.w 0))) (specialData n.w 0) (specialStart 0 n) t) ∧
    ∃ u, checkPieceId env 1 (afterBase 0 n) = .ret true u ∧
      ∃ t, handleWritePiece env 1 [] 0 n = .ret () t ∧
        Finished env (pieceLen u.w []) (pieceData u.w []) (cued u) t := by
  intro env s n
  have hu : checkPieceId env 1 (afterBase 0 n) = .ret true (ticked (afterBase 0 n)) :=
    checkPieceId_apply env 1 (by decide) (by decide)
  exact ⟨((writes_iff_first_attempt env 0).1 0 n (by decide)).mpr (by decide), _, hu,
    ((writes_iff_first_attempt env 0).2 [] 0 n _ rfl hu).mpr (by decide)⟩

/-- The time is 1000 and the second attempt to write a file cannot open it. -/
def secondFails : Env := { quiet fun _ => 1000 with faults := fun n => if n = 1 then .openFile else .none }

/-- One failing attempt among attempts that succeed: after a block has been
written, neither routine returns any more. -/
theorem one_failure_hangs :
    ∃ mediaTs w s, start secondFails 1 zeroed [] ['g'] 1 100 60 ⟨[], []⟩ = .ret mediaTs w ∧
      runEvents (writerStep secondFails) w
        [.msg 1 (.writePiece true [flvHeader] 0 0), .msg 1 (.writePiece false [] 0 0)] = some s ∧
      s.w.stat = .normal ∧ (∀ n, n ≠ 1 → secondFails.faults n = .none) ∧
      (∀ fuel t, handleWritePiece secondFails fuel [] 0 s ≠ .ret () t) ∧
      ∀ fuel t, writeOneSpecialPiece secondFails fuel 0 s ≠ .ret () t := by
  have h : ((start secondFails 1 zeroed [] ['g'] 1 100 60 ⟨[], []⟩).andThen fun _ w =>
      (runEvents (writerStep secondFails) w
        [.msg 1 (.writePiece true [flvHeader] 0 0), .msg 1 (.writePiece false [] 0 0)]).map fun s =>
          (s.w.stat, s.fs.attempts, s.w.currentPieceId, s.w.pieceScale)) = some (.normal, 1, 1001, 1) := by
    decide +kernel
  obtain ⟨mediaTs, w, hw, h⟩ := Res.andThen_eq_some h
  obtain ⟨s, hs, h⟩ := Option.map_eq_some_iff.mp h
  have hst : s.w.stat = .normal := congrArg (·.1) h
  have hat : s.fs.attempts = 1 := congrArg (·.2.1) h
  have hid : s.w.currentPieceId = 1001 := congrArg (·.2.2.1) h
  have hsc : s.w.pieceScale = 1 := congrArg (·.2.2.2) h
  have hF : Fails secondFails s := by simp [Fails, secondFails, hat]
  refine ⟨mediaTs, w, s, hw, hs, hst, fun n hn => if_neg hn, fun fuel t ht => ?_, fun fuel t ht => ?_⟩
  · have hu : checkPieceId secondFails fuel (afterBase 0 s) = .ret true (ticked (afterBase 0 s)) := by
      refine checkPieceId_apply secondFails fuel ?_ ?_
      · simp [afterBase, hid, hsc, secondFails, quiet, u32]
      · simp [afterBase, Writer.needCheckID, hid, idCheckScale]
    rw [handleWritePiece_normal [] hst hu, writePiece_eq] at ht
    exact (wrote_of_writeBlock ht).1 hF
  · rw [writeOneSpecialPiece_eq secondFails fuel (by decide)] at ht
    exact (wrote_of_writeBlock ht).1 hF

end XH.Proof.Cutter
