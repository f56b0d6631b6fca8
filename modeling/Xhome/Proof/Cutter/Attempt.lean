import Xhome.Proof.Cutter.Frame

/-!
# Writing a block file

What one attempt to write a block file does (`attempt_spec`), and what the
retry loop around it does: it returns exactly if its first attempt succeeds
(`writeLoop_ret`, `writeLoop_run`), since `error_value` is never reset in the
loop.
-/

namespace XH.Proof.Cutter

open XH.Impl.Cutter

/-- The attempt at hand fails; without a new directory none has to be created. -/
def Fails (env : Env) (s : World) : Prop :=
  env.faults s.fs.attempts ≠ .none ∧ (env.faults s.fs.attempts = .createDirectories → s.entersDir = true)

instance (env : Env) (s : World) : Decidable (Fails env s) := inferInstanceAs (Decidable (_ ∧ _))

/-- The directory of the block at hand. -/
def blockDir (s : World) : Path :=
  if s.entersDir then s.w.dirPath ++ [decimal (s.w.currentPieceId / dirScale), s.w.guidStr] else s.fs.filePath

def blockPath (s : World) : Path := blockDir s ++ [blockName s.w.currentPieceId]

/-- The bytes of a block file. -/
def blockContent (w : Writer) (data : Piece) : List Byte := w.blockHeader.serialize ++ data.flatten

/-- The block that a successful attempt puts in place. -/
def placed (env : Env) (kind : BlockKind) (data : Piece) (s : World) : Written :=
  ⟨kind, s.w.currentPieceId, blockPath s, blockContent s.w data, s.now env⟩

theorem tmpPath_blockPath (s : World) :
    tmpPath (blockPath s) = blockDir s ++ [blockName s.w.currentPieceId ++ tmpExtension] := by
  simp only [tmpPath, blockPath, List.dropLast_concat, List.getLast?_concat, Option.getD_some]

theorem tmpPath_ne (s : World) : tmpPath (blockPath s) ≠ blockPath s := by
  rw [tmpPath_blockPath, blockPath]
  intro h
  have h := congrArg List.length (List.cons.inj (List.append_cancel_left h)).1
  simp only [tmpExtension, List.length_append, List.length_cons, List.length_nil] at h
  omega

/-- All but the disk. -/
def offDisk (s : World) : World := { s with fs := { s.fs with disk := ⟨[], []⟩, history := [] } }

theorem createDirectories_apply :
    ∀ (ns : List Name) (p : Path) (s : World),
      ∃ t, createDirectories p ns s = .ret () t ∧ offDisk t = offDisk s ∧ t.fs.disk.files = s.fs.disk.files
  | [], _, s => ⟨s, rfl, rfl, rfl⟩
  | n :: ns, p, s => by
    by_cases hh : s.fs.disk.has (p ++ [n]) = true
    · obtain ⟨t, ht, h₁, h₂⟩ := createDirectories_apply ns (p ++ [n]) s
      refine ⟨t, ?_, h₁, h₂⟩
      rw [createDirectories, Prog.bind_ret (Prog.get_apply s)]
      simp only [hh, Bool.not_true, Bool.false_eq_true, ite_false]
      exact ht
    · obtain ⟨t, ht, h₁, h₂⟩ := createDirectories_apply ns (p ++ [n])
        { s with fs := { s.fs with
          disk := s.fs.disk.mkdir (p ++ [n]), history := s.fs.history ++ [s.fs.disk.mkdir (p ++ [n])] } }
      refine ⟨t, ?_, h₁, h₂.trans (Tree.files_mkdir _ _)⟩
      rw [createDirectories, Prog.bind_ret (Prog.get_apply s)]
      simp only [hh, Bool.not_false, ite_true]
      exact ht

/-- The path of the block at hand, in a directory that exists then. -/
theorem getFilePathName_apply (fault : Fault) (s : World) :
    ∃ path t, getFilePathName fault s = .ret path t ∧ offFiles t = offFiles s ∧ t.fs.written = s.fs.written ∧
      t.fs.attempts = s.fs.attempts ∧ t.fs.removes = s.fs.removes ∧ t.fs.disk.files = s.fs.disk.files ∧
      (∀ f ∈ t.fs.pieceFileQueue, f ∈ s.fs.pieceFileQueue) ∧
      ((fault = .createDirectories ∧ s.entersDir = true ∧ path = []) ∨
        (¬ (fault = .createDirectories ∧ s.entersDir = true) ∧ path = blockPath s ∧ t.fs.filePath = blockDir s ∧
          t.fs.dirQueue = (if s.entersDir then
            s.fs.dirQueue ++ [⟨s.w.currentPieceId / dirScale, blockDir s⟩] else s.fs.dirQueue) ∧
          t.fs.pieceFileQueue = if s.entersDir then [] else s.fs.pieceFileQueue)) := by
  by_cases he : s.entersDir = true
  · have hd : blockDir s = s.w.dirPath ++ [decimal (s.w.currentPieceId / dirScale), s.w.guidStr] := if_pos he
    by_cases hf : fault = .createDirectories
    · refine ⟨[], { s with fs := { s.fs with filePath := blockDir s } }, ?_, rfl, rfl, rfl, rfl, rfl, fun _ h => h,
        .inl ⟨hf, he, rfl⟩⟩
      rw [getFilePathName, Prog.bind_ret (Prog.get_apply s)]
      simp only [he, ite_true, hf, hd]
      rfl
    · obtain ⟨t, ht, h₁, h₂⟩ := createDirectories_apply (blockDir s) []
        { s with fs := { s.fs with filePath := blockDir s } }
      have hk : ∀ {α : Type} (f : World → α), f (offDisk t) = f (offDisk { s with fs := { s.fs with filePath := blockDir s } }) :=
        fun f => congrArg f h₁
      refine ⟨blockPath s, { t with fs := { t.fs with
          dirQueue := t.fs.dirQueue ++ [⟨s.w.currentPieceId / dirScale, blockDir s⟩], pieceFileQueue := [] } },
        ?_, hk offFiles, hk (·.fs.written), hk (·.fs.attempts), hk (·.fs.removes), h₂,
        (fun _ h => by cases h), .inr ⟨fun h => hf h.1, rfl, hk (·.fs.filePath), ?_, by rw [if_pos he]⟩⟩
      · rw [getFilePathName, Prog.bind_ret (Prog.get_apply s)]
        simp only [he, ite_true, hf, ite_false, ← hd]
        rw [Prog.bind_ret (Prog.modify_apply _ s), Prog.bind_ret ht]
        rfl
      · rw [if_pos he]; exact congrArg (· ++ _) (hk (·.fs.dirQueue))
  · have hd : blockDir s = s.fs.filePath := if_neg he
    refine ⟨blockPath s, s, ?_, rfl, rfl, rfl, rfl, rfl, fun _ h => h, .inr ⟨fun h => he h.2, rfl, hd.symm, ?_, ?_⟩⟩
    · rw [getFilePathName, Prog.bind_ret (Prog.get_apply s)]
      simp only [he, Bool.false_eq_true, ite_false, blockPath, hd]
      rfl
    · rw [if_neg he]
    · rw [if_neg he]

/-- The state after a change of the disk. -/
def onDisk (f : Tree → Tree) (s : World) : World :=
  { s with fs := { s.fs with disk := f s.fs.disk, history := s.fs.history ++ [f s.fs.disk] } }

theorem diskOp_apply (f : Tree → Tree) (s : World) : diskOp f s = .ret () (onDisk f s) := rfl

/-- The finished temporary file is moved into place. -/
theorem renameBlock_apply (env : Env) (kind : BlockKind) {path : Path} {c : List Byte} {s : World}
    (hne : tmpPath path ≠ path) (hc : s.fs.disk.read (tmpPath path) = some c) :
    ∃ t, renameBlock env kind path s = .ret () t ∧ t.fs.disk.read path = some c ∧
      offDisk t = offDisk { s with fs := { s.fs with
        written := s.fs.written ++ [⟨kind, s.w.currentPieceId, path, c, s.now env⟩] } } := by
  let moved (u : World) : World := onDisk (·.rename (tmpPath path) path) u
  let noted (u : World) : World := { u with fs := { u.fs with
    written := u.fs.written ++ [⟨kind, u.w.currentPieceId, path, (u.fs.disk.read path).getD [], u.now env⟩] } }
  by_cases hh : s.fs.disk.has path = true
  · have hr : (moved (onDisk (·.remove path) s)).fs.disk.read path = some c :=
      Tree.read_rename ((Tree.read_remove hne).trans hc)
    refine ⟨noted (moved (onDisk (·.remove path) s)), ?_, hr, ?_⟩
    · rw [renameBlock, Prog.bind_ret (Prog.get_apply s)]
      simp only [hh, ite_true]
      rfl
    · simp only [noted, hr, Option.getD_some]; rfl
  · have hr : (moved s).fs.disk.read path = some c := Tree.read_rename hc
    refine ⟨noted (moved s), ?_, hr, ?_⟩
    · rw [renameBlock, Prog.bind_ret (Prog.get_apply s)]
      simp only [hh, Bool.false_eq_true, ite_false]
      rfl
    · simp only [noted, hr, Option.getD_some]; rfl

/-- The file is put in place, or `error_value` is set; nothing but the disk and
the list of blocks changes. -/
theorem writeFile_apply (env : Env) (kind : BlockKind) (content : List Byte) (e : Int) (fault : Fault) {path : Path}
    (hne : path ≠ [] → tmpPath path ≠ path) (s : World) :
    ∃ r t, writeFile env kind content e fault path s = .ret r t ∧
      ((fault = .none ∨ fault = .createDirectories) ∧ path ≠ [] → r = e ∧ t.fs.disk.read path = some content ∧
        offDisk t = offDisk { s with fs := { s.fs with
          written := s.fs.written ++ [⟨kind, s.w.currentPieceId, path, content, s.now env⟩] } }) ∧
      (¬ ((fault = .none ∨ fault = .createDirectories) ∧ path ≠ []) → r ≠ 0 ∧ offDisk t = offDisk s) := by
  -- the temporary file
  let opened : World := onDisk (·.write (tmpPath path) []) s
  let finished : World := onDisk (·.write (tmpPath path) content) opened
  have hread : finished.fs.disk.read (tmpPath path) = some content := Tree.read_write _ _ _
  have hlast : ∀ f : Fault, (f = .none ∨ f = .createDirectories) →
      ∃ r t, writeFile env kind content e f path s = .ret r t ∧
        (path ≠ [] → r = e ∧ t.fs.disk.read path = some content ∧
          offDisk t = offDisk { s with fs := { s.fs with
            written := s.fs.written ++ [⟨kind, s.w.currentPieceId, path, content, s.now env⟩] } }) ∧
        (path = [] → r ≠ 0 ∧ offDisk t = offDisk s) := fun f hf => by
    have hw : writeFile env kind content e f path s =
        (if path = [] then (pure enoent : Prog World Int) else do
          renameBlock env kind path
          pure e) finished := by
      rcases hf with rfl | rfl <;> rfl
    rw [hw]
    by_cases hp : path = []
    · rw [if_pos hp]
      exact ⟨enoent, finished, rfl, fun h => absurd hp h, fun _ => ⟨by decide, rfl⟩⟩
    · obtain ⟨t, ht, h₁, h₂⟩ := renameBlock_apply env kind (hne hp) hread
      rw [if_neg hp]
      exact ⟨e, t, Prog.bind_ret ht, fun _ => ⟨rfl, h₁, h₂⟩, fun h => absurd h hp⟩
  cases fault with
  | none =>
    obtain ⟨r, t, ht, h₁, h₂⟩ := hlast .none (.inl rfl)
    exact ⟨r, t, ht, fun h => h₁ h.2, fun h => h₂ (not_not.mp fun hp => h ⟨.inl rfl, hp⟩)⟩
  | createDirectories =>
    obtain ⟨r, t, ht, h₁, h₂⟩ := hlast .createDirectories (.inr rfl)
    exact ⟨r, t, ht, fun h => h₁ h.2, fun h => h₂ (not_not.mp fun hp => h ⟨.inr rfl, hp⟩)⟩
  | openFile => exact ⟨1, s, rfl, fun h => by simp at h, fun _ => ⟨by decide, rfl⟩⟩
  | write => exact ⟨2, opened, rfl, fun h => by simp at h, fun _ => ⟨by decide, rfl⟩⟩
  | rename removed code =>
    cases removed with
    | false => exact ⟨code.val, finished, rfl, fun h => by simp at h, fun _ => ⟨code.property, rfl⟩⟩
    | true => exact ⟨code.val, onDisk (·.remove path) finished, rfl, fun h => by simp at h, fun _ => ⟨code.property, rfl⟩⟩

/-- What an attempt from `s` with the result `r` has done in `t`. -/
structure Attempted (env : Env) (kind : BlockKind) (data : Piece) (e : Int) (s : World) (r : Int × Path) (t : World) :
    Prop where
  offFiles : offFiles t = offFiles s
  attempts : t.fs.attempts = s.fs.attempts + 1
  removes : t.fs.removes = s.fs.removes
  queue : ∀ f ∈ t.fs.pieceFileQueue, f ∈ s.fs.pieceFileQueue
  failed : Fails env s → r.1 ≠ 0 ∧ t.fs.written = s.fs.written
  placed : ¬ Fails env s → r = (e, blockPath s) ∧ t.fs.written = s.fs.written ++ [placed env kind data s] ∧
    t.fs.disk.read (blockPath s) = some (blockContent s.w data) ∧ t.fs.filePath = blockDir s ∧
    t.fs.dirQueue = (if s.entersDir then
      s.fs.dirQueue ++ [⟨s.w.currentPieceId / dirScale, blockDir s⟩] else s.fs.dirQueue) ∧
    t.fs.pieceFileQueue = if s.entersDir then [] else s.fs.pieceFileQueue

theorem attempt_spec (env : Env) (kind : BlockKind) (data : Piece) (e : Int) (s : World) :
    ∃ r t, attempt env kind data e s = .ret r t ∧ Attempted env kind data e s r t := by
  obtain ⟨path, t, ht, h₁, h₂, h₃, h₄, -, hq, hp⟩ :=
    getFilePathName_apply (env.faults s.fs.attempts) { s with fs := { s.fs with attempts := s.fs.attempts + 1 } }
  have hne : path ≠ [] → tmpPath path ≠ path := fun h => by
    rcases hp with ⟨-, -, hp⟩ | ⟨-, hp, -⟩
    · exact absurd hp h
    · rw [hp]; exact tmpPath_ne s
  obtain ⟨r, u, hu, hok, hbad⟩ := writeFile_apply env kind (blockContent s.w data) e (env.faults s.fs.attempts) hne t
  have hret : attempt env kind data e s = .ret (r, path) u := by
    rw [attempt, Prog.bind_ret (Prog.get_apply s), Prog.bind_ret (Prog.modify_apply _ s), Prog.bind_ret ht]
    exact Prog.bind_ret hu
  have hcond : ((env.faults s.fs.attempts = .none ∨ env.faults s.fs.attempts = .createDirectories) ∧ path ≠ []) ↔
      ¬ Fails env s := by
    rcases hp with ⟨hf, he, hp⟩ | ⟨hn, hp, -⟩
    · have : Fails env s := ⟨by rw [hf]; decide, fun _ => he⟩
      exact ⟨fun h => absurd hp h.2, fun h => absurd this h⟩
    · have hp' : path ≠ [] := by rw [hp]; simp [blockPath]
      constructor
      · rintro ⟨h | h, -⟩ ⟨hf₁, hf₂⟩
        · exact hf₁ h
        · exact hn ⟨h, hf₂ h⟩
      · intro h
        refine ⟨?_, hp'⟩
        by_cases h₀ : env.faults s.fs.attempts = .none
        · exact .inl h₀
        · exact .inr (not_not.mp fun hc => h ⟨h₀, fun hc' => absurd hc' hc⟩)
  refine ⟨(r, path), u, hret, ?_⟩
  by_cases hF : Fails env s
  · obtain ⟨hr, hk⟩ := hbad fun h => hcond.mp h hF
    have hk : ∀ {α : Type} (f : World → α), f (offDisk u) = f (offDisk t) := fun f => congrArg f hk
    exact ⟨(hk Cutter.offFiles).trans h₁, (hk (·.fs.attempts)).trans h₃, (hk (·.fs.removes)).trans h₄,
      fun f hf => hq f ((hk (·.fs.pieceFileQueue)) ▸ hf), fun _ => ⟨hr, (hk (·.fs.written)).trans h₂⟩, fun h => absurd hF h⟩
  · obtain ⟨hr, hread, hk⟩ := hok (hcond.mpr hF)
    obtain ⟨-, hp, hfp, hdq, hpq⟩ := hp.resolve_left fun ⟨hf, he, _⟩ => hF ⟨by rw [hf]; decide, fun _ => he⟩
    have hp : path = blockPath s := hp
    have hnow : t.now env = s.now env := congrArg (fun n => env.utc (n - 1)) (congrArg (·.2.1) h₁)
    have hid : t.w.currentPieceId = s.w.currentPieceId := congrArg (·.1.currentPieceId) h₁
    have hk : ∀ {α : Type} (f : World → α), f (offDisk u) = f (offDisk { t with fs := { t.fs with
        written := t.fs.written ++ [⟨kind, t.w.currentPieceId, path, blockContent s.w data, t.now env⟩] } }) :=
      fun f => congrArg f hk
    refine ⟨(hk Cutter.offFiles).trans h₁, (hk (·.fs.attempts)).trans h₃, (hk (·.fs.removes)).trans h₄,
      fun f hf => hq f ((hk (·.fs.pieceFileQueue)) ▸ hf), fun h => absurd h hF, fun _ => ⟨by rw [hr, hp], ?_, by rw [← hp]; exact hread, (hk (·.fs.filePath)).trans hfp,
        (hk (·.fs.dirQueue)).trans hdq, (hk (·.fs.pieceFileQueue)).trans hpq⟩⟩
    apply (hk (·.fs.written)).trans
    show t.fs.written ++ _ = _
    rw [h₂, hid, hnow, hp]
    rfl

/-! ## The retry loop -/

/-- Once `error_value` is set the loop does not end. -/
theorem writeLoop_run (env : Env) (kind : BlockKind) (data : Piece) (len : Nat) :
    ∀ (fuel : Nat) {e : Int} (n : Nat) (s : World), e ≠ 0 →
      ∃ t, writeLoop env kind data len fuel e n s = .run t
  | 0, _, _, s, _ => ⟨s, rfl⟩
  | fuel + 1, e, n, s, he => by
    obtain ⟨r, t, ht, hs⟩ := attempt_spec env kind data e s
    have hr : r.1 ≠ 0 := by
      by_cases hF : Fails env s
      · exact (hs.failed hF).1
      · rw [(hs.placed hF).1]; exact he
    rw [writeLoop, Prog.bind_ret ht, if_pos hr]
    split
    · cases hd : decreasePiece env len t with
      | ret a u =>
        rw [Prog.bind_ret hd]
        exact writeLoop_run env kind data len fuel _ u hr
      | run u => exact ⟨u, by rw [Prog.bind_apply, hd]⟩
      | ub => exact absurd hd (decreasePiece_offRemoval env len t).not_ub
    · exact writeLoop_run env kind data len fuel _ t hr

/-- The loop returns at once if the first attempt succeeds. -/
theorem writeLoop_ret (env : Env) (kind : BlockKind) (data : Piece) (len fuel n : Nat) {s : World} (h : ¬ Fails env s) :
    ∃ t, writeLoop env kind data len (fuel + 1) 0 n s = .ret (blockPath s) t ∧
      Attempted env kind data 0 s (0, blockPath s) t := by
  obtain ⟨r, t, ht, hs⟩ := attempt_spec env kind data 0 s
  obtain rfl := (hs.placed h).1
  refine ⟨t, ?_, hs⟩
  rw [writeLoop, Prog.bind_ret ht, if_neg (by simp)]
  rfl

/-- It returns only then. -/
theorem not_fails_of_writeLoop {env : Env} {kind : BlockKind} {data : Piece} {len fuel n : Nat} {s t : World}
    {path : Path} (h : writeLoop env kind data len fuel 0 n s = .ret path t) :
    ¬ Fails env s ∧ path = blockPath s ∧ Attempted env kind data 0 s (0, blockPath s) t := by
  cases fuel with
  | zero => cases h
  | succ fuel =>
    by_cases hF : Fails env s
    · exfalso
      obtain ⟨r, u, hu, hs⟩ := attempt_spec env kind data 0 s
      have hr := (hs.failed hF).1
      rw [writeLoop, Prog.bind_ret hu, if_pos hr] at h
      split at h
      · cases hd : decreasePiece env len u with
        | ret a v =>
          obtain ⟨x, hx⟩ := writeLoop_run env kind data len fuel (u32 (n + len)) v hr
          rw [Prog.bind_ret hd, hx] at h
          cases h
        | run v => rw [Prog.bind_apply, hd] at h; cases h
        | ub => exact (decreasePiece_offRemoval env len u).not_ub hd
      · obtain ⟨x, hx⟩ := writeLoop_run env kind data len fuel n u hr
        rw [hx] at h
        cases h
    · obtain ⟨u, hu, hs⟩ := writeLoop_ret env kind data len fuel n hF
      cases hu.symm.trans h
      exact ⟨hF, rfl, hs⟩

/-- What the loop does to the blocks and to the queue, returned or not. -/
structure NewBlocks (env : Env) (kind : BlockKind) (data : Piece) (s t : World) : Prop where
  written : ∀ b ∈ t.fs.written, b ∈ s.fs.written ∨
    (b.kind = kind ∧ b.id = s.w.currentPieceId ∧ b.path.getLast? = some (blockName s.w.currentPieceId) ∧
      b.content = blockContent s.w data ∧ b.now = s.now env)
  kept : ∀ b ∈ s.fs.written, b ∈ t.fs.written
  queue : ∀ f ∈ t.fs.pieceFileQueue, f ∈ s.fs.pieceFileQueue

theorem attempt_newBlocks {env : Env} {kind : BlockKind} {data : Piece} {e : Int} {s t : World} {r : Int × Path}
    (h : Attempted env kind data e s r t) : NewBlocks env kind data s t := by
  by_cases hF : Fails env s
  · have hw := (h.failed hF).2
    exact ⟨fun b hb => .inl (hw ▸ hb), fun b hb => hw ▸ hb, h.queue⟩
  · have hw := (h.placed hF).2.1
    refine ⟨fun b hb => ?_, fun b hb => hw ▸ List.mem_append_left _ hb, h.queue⟩
    rw [hw, List.mem_append, List.mem_singleton] at hb
    apply hb.imp_right
    rintro rfl
    exact ⟨rfl, rfl, List.getLast?_concat, rfl, rfl⟩

theorem NewBlocks.trans {env : Env} {kind : BlockKind} {data : Piece} {s t u : World} (hw : t.w = s.w)
    (hr : t.reads = s.reads) (h : NewBlocks env kind data s t) (h' : NewBlocks env kind data t u) : NewBlocks env kind data s u := by
  refine ⟨fun b hb => ?_, fun b hb => h'.kept b (h.kept b hb), fun f hf => h.queue f (h'.queue f hf)⟩
  rcases h'.written b hb with hb | hb
  · exact h.written b hb
  · rw [hw, World.now, hr] at hb; exact .inr hb

theorem decreasePiece_newBlocks (env : Env) (len : Nat) (kind : BlockKind) (data : Piece) (s : World) :
    WP (decreasePiece env len) s (fun _ t => NewBlocks env kind data s t) (fun t => NewBlocks env kind data s t) := by
  have hk := decreasePiece_offRemoval env len s
  have hq : WP (decreasePiece env len) s (fun _ t => Queued (· ∈ s.fs.pieceFileQueue) t) (Queued (· ∈ s.fs.pieceFileQueue)) :=
    .bind (.get (decreaseLoop_queued env len 0 (fun _ h => h) fun _ h => h))
  have hn : ∀ t : World, offRemoval t = offRemoval s → Queued (· ∈ s.fs.pieceFileQueue) t → NewBlocks env kind data s t :=
    fun t hk hq => by
      have hb : t.fs.written = s.fs.written := congrArg (·.fs.written) hk
      exact ⟨fun b h => .inl (hb ▸ h), fun b h => hb ▸ h, hq⟩
  exact .intro (fun _ t e => hn t (hk.ret e) (hq.ret e)) (fun t e => hn t (hk.run e) (hq.run e)) hk.not_ub

theorem writeLoop_newBlocks (env : Env) (kind : BlockKind) (data : Piece) (len : Nat) :
    ∀ (fuel : Nat) (e : Int) (n : Nat) (s : World),
      WP (writeLoop env kind data len fuel e n) s (fun _ t => NewBlocks env kind data s t) (fun t => NewBlocks env kind data s t)
  | 0, _, _, _ => .running ⟨fun _ h => .inl h, fun _ h => h, fun _ h => h⟩
  | fuel + 1, e, n, s => by
    obtain ⟨r, t, ht, hs⟩ := attempt_spec env kind data e s
    have hw : t.w = s.w := congrArg Prod.fst hs.offFiles
    have hr : t.reads = s.reads := congrArg (·.2.1) hs.offFiles
    have hn := attempt_newBlocks hs
    refine .bind (.of_ret ht ?_)
    split
    · split
      · have hd := (decreasePiece_newBlocks env len kind data t).and (decreasePiece_offRemoval env len t)
        refine .seq (hd.mono (fun _ _ hu => hu) fun _ hu => hn.trans hw hr hu.1) fun _ u hu => ?_
        have hwu : u.w = s.w := (congrArg (·.w) hu.2).trans hw
        have hru : u.reads = s.reads := (congrArg (·.reads) hu.2).trans hr
        have hnu : NewBlocks env kind data s u := hn.trans hw hr hu.1
        exact (writeLoop_newBlocks env kind data len fuel _ _ u).mono (fun _ _ h => hnu.trans hwu hru h) fun _ h =>
          hnu.trans hwu hru h
      · exact (writeLoop_newBlocks env kind data len fuel _ _ t).mono
          (fun _ _ h => hn.trans hw hr h) fun _ h => hn.trans hw hr h
    · exact .pure hn

/-! ## A block -/

/-- The header of the block at hand. -/
def headerOf (env : Env) (w : Writer) (len : Nat) (data : Piece) : FlvBlockHeader :=
  hashBlockHeader env.md5 (assignBlockHeader w.blockHeader w.currentPieceId len data)

/-- The state in which the file of a block is written. -/
def headed (env : Env) (len : Nat) (data : Piece) (s : World) : World :=
  { s with w := { s.w with blockHeader := headerOf env s.w len data } }

/-- What a block written from `s` has done in `t`. -/
structure Wrote (env : Env) (kind : BlockKind) (data : Piece) (len : Nat) (s t : World) : Prop where
  w : t.w = { s.w with
    blockHeader := headerOf env s.w len data, currentPieceId := u32 (s.w.currentPieceId + s.w.pieceScale) }
  reads : t.reads = s.reads
  reports : t.reports = s.reports
  attempts : t.fs.attempts = s.fs.attempts + 1
  removes : t.fs.removes = s.fs.removes
  written : t.fs.written = s.fs.written ++ [placed env kind data (headed env len data s)]
  read : t.fs.disk.read (blockPath s) = some (blockContent (headed env len data s).w data)
  filePath : t.fs.filePath = blockDir s
  dirQueue : t.fs.dirQueue = if s.entersDir then
    s.fs.dirQueue ++ [⟨s.w.currentPieceId / dirScale, blockDir s⟩] else s.fs.dirQueue
  pieceFileQueue : t.fs.pieceFileQueue = (if s.entersDir then [] else s.fs.pieceFileQueue) ++
    [⟨s.w.currentPieceId, blockPath s, u32 (len + flvBlockHeaderTSize)⟩]

/-- The end of a block: its entry, and the next id. -/
def entered (path : Path) (len : Nat) (s : World) : World :=
  { s with
    fs := { s.fs with pieceFileQueue := s.fs.pieceFileQueue ++ [⟨s.w.currentPieceId, path, len⟩] }
    w := { s.w with currentPieceId := u32 (s.w.currentPieceId + s.w.pieceScale) } }

theorem wrote_of_attempted {env : Env} {kind : BlockKind} {data : Piece} {len : Nat} {s t : World} (hF : ¬ Fails env s)
    (h : Attempted env kind data 0 (headed env len data s) (0, blockPath s) t) :
    Wrote env kind data len s (entered (blockPath s) (u32 (len + flvBlockHeaderTSize)) t) := by
  obtain ⟨-, hwr, hrd, hfp, hdq, hpq⟩ := h.placed hF
  have hw : t.w = (headed env len data s).w := congrArg Prod.fst h.offFiles
  refine ⟨?_, congrArg (·.2.1) h.offFiles, congrArg (·.2.2) h.offFiles, h.attempts, h.removes, hwr, hrd, hfp, hdq, ?_⟩
  · simp only [entered, hw, headed]
  · simp only [entered, hw, hpq]
    rfl

/-- A block is written if its first attempt succeeds. -/
theorem writeBlock_ret (env : Env) (fuel : Nat) (kind : BlockKind) (data : Piece) (len n : Nat) {s : World}
    (h : ¬ Fails env s) : ∃ t, writeBlock env (fuel + 1) kind data len n s = .ret () t ∧ Wrote env kind data len s t := by
  obtain ⟨t, ht, hs⟩ := writeLoop_ret env kind data (u32 (len + flvBlockHeaderTSize)) fuel n
    (s := headed env len data s) h
  refine ⟨_, ?_, wrote_of_attempted h hs⟩
  rw [writeBlock, setBlockHeader, Prog.bind_ret (Prog.modify_apply _ s)]
  exact Prog.bind_ret ht

/-- A block that has been written was written at the first attempt. -/
theorem wrote_of_writeBlock {env : Env} {fuel : Nat} {kind : BlockKind} {data : Piece} {len n : Nat} {s t : World}
    (h : writeBlock env fuel kind data len n s = .ret () t) : ¬ Fails env s ∧ Wrote env kind data len s t := by
  rw [writeBlock, setBlockHeader, Prog.bind_ret (Prog.modify_apply _ s)] at h
  obtain ⟨path, u, hu, h⟩ := Prog.ret_of_bind h
  obtain ⟨hF, rfl, hs⟩ := not_fails_of_writeLoop hu
  cases h
  exact ⟨hF, wrote_of_attempted hF hs⟩

/-- The blocks put in place while `writeBlock` is running. -/
theorem writeBlock_newBlocks (env : Env) (fuel : Nat) (kind : BlockKind) (data : Piece) (len n : Nat) (s : World) :
    WP (writeBlock env fuel kind data len n) s (fun _ _ => True)
      (fun t => NewBlocks env kind data (headed env len data s) t) := by
  refine .bind (.modify (.bind ((writeLoop_newBlocks env kind data _ fuel 0 n _).mono (fun _ _ _ => ?_) fun _ h => h)))
  exact .modify trivial

/-- What `writeBlock` does; where no attempt fails it is left running only without
a round. -/
theorem writeBlock_spec (env : Env) (fuel : Nat) (kind : BlockKind) (data : Piece) (len n : Nat) (s : World) :
    WP (writeBlock env fuel kind data len n) s (fun _ t => Wrote env kind data len s t)
      (fun t => NewBlocks env kind data (headed env len data s) t ∧ (¬ Fails env s → t = headed env len data s)) := by
  refine .intro (fun _ t e => (wrote_of_writeBlock e).2) (fun t e => ?_) (writeBlock_kept env fuel kind data len n s).not_ub
  refine ⟨(writeBlock_newBlocks env fuel kind data len n s).run e, fun h => ?_⟩
  cases fuel with
  | zero =>
    cases e
    rfl
  | succ fuel =>
    obtain ⟨u, hu, -⟩ := writeBlock_ret env fuel kind data len n h
    rw [hu] at e
    cases e

end XH.Proof.Cutter
