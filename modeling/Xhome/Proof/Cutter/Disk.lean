import Xhome.Proof.Cutter.Consistent
import Xhome.Proof.Cutter.Timeline

/-!
# The disk of a channel

What a run leaves on the disk, whatever fails and wherever it is stopped:
`Orderly` holds of every state the disk goes through. The blocks of a channel
are in the directories of their numbers, and each is a whole file; a directory
may be there without a block in it.
-/

namespace XH.Proof.Cutter

open XH.Impl.Cutter

/-! ## Trees -/

/-- The directory of the block `id`. -/
def homeOf (dir : Path) (guid : Name) (id : Nat) : Path := dir ++ [decimal (id / dirScale), guid]

/-- A file that is none of the channel's directories; if it is a block, it is
whole and in its place. -/
structure FileOk (dir : Path) (guid : Name) (limit : Nat) (dirs : List Path) (f : Path × List Byte) : Prop where
  notDir : ∀ k, f.1 ≠ dir ++ [decimal k]
  notHome : ∀ x, f.1 ≠ dir ++ [x, guid]
  parent : ∀ x n, f.1 = dir ++ [x, guid, n] → dir ++ [x, guid] ∈ dirs
  block : ∀ x n, f.1 = dir ++ [x, guid, n] → extension n = blockExtension →
    ∃ id, n = blockName id ∧ x = decimal (id / dirScale) ∧ f.2 ≠ [] ∧ id ≤ limit

/-- The part of the tree that belongs to the channel. -/
structure Orderly (dir : Path) (guid : Name) (limit : Nat) (d : Tree) : Prop where
  dirs : ∀ x, dir ++ [x, guid] ∈ d.dirs → dir ++ [x] ∈ d.dirs ∧ ∃ k < 2 ^ 31, x = decimal k
  files : ∀ f ∈ d.files, FileOk dir guid limit d.dirs f

section
variable {dir : Path} {guid : Name} {limit : Nat} {d d' : Tree}

theorem extension_blockName (id : Nat) : extension (blockName id) = blockExtension :=
  extension_append (a := decimal id) (b := ['b', 'l', 'o', 'c', 'k']) (by decide)

theorem extension_tmp (n : Name) : extension (n ++ tmpExtension) = tmpExtension :=
  extension_append (a := n) (b := ['t', 'm', 'p']) (by decide)

theorem stem_blockName (id : Nat) : stem (blockName id) = decimal id :=
  stem_append (a := decimal id) (b := ['b', 'l', 'o', 'c', 'k']) (by decide)

/-- The number in the name of a block. -/
theorem blockNumber_blockName {id : Nat} (h : id < 2 ^ 31) : blockNumber (blockName id) = id := by
  rw [blockNumber, stem_blockName, atoi_decimal h, u32OfInt_natCast (by omega)]

theorem blockNumber_decimal {k : Nat} (h : k < 2 ^ 31) : blockNumber (decimal k) = k := by
  have hs : stem (decimal k) = decimal k := if_neg (dot_not_mem_decimal k)
  rw [blockNumber, hs, atoi_decimal h, u32OfInt_natCast (by omega)]

theorem FileOk.mono {limit' : Nat} {dirs dirs' : List Path} {f : Path × List Byte} (h : FileOk dir guid limit dirs f)
    (hl : limit ≤ limit') (hd : ∀ p ∈ dirs, p ∈ dirs') : FileOk dir guid limit' dirs' f :=
  ⟨h.notDir, h.notHome, fun x n e => hd _ (h.parent x n e), fun x n e hx => by
    obtain ⟨id, h₁, h₂, h₃, h₄⟩ := h.block x n e hx
    exact ⟨id, h₁, h₂, h₃, h₄.trans hl⟩⟩

theorem Orderly.mono {limit' : Nat} (h : Orderly dir guid limit d) (hl : limit ≤ limit') : Orderly dir guid limit' d :=
  ⟨h.dirs, fun f hf => (h.files f hf).mono hl fun _ hp => hp⟩

/-- Files come and go, the directories stay. -/
theorem Orderly.of_files (h : Orderly dir guid limit d) (hd : d'.dirs = d.dirs)
    (hf : ∀ f ∈ d'.files, f ∈ d.files ∨ FileOk dir guid limit d.dirs f) : Orderly dir guid limit d' :=
  ⟨fun x hx => by rw [hd] at hx ⊢; exact h.dirs x hx, fun f hm => by
    rw [hd]
    exact (hf f hm).elim (h.files f) id⟩

/-- A directory is added. -/
theorem Orderly.mkdir (h : Orderly dir guid limit d) {q : Path}
    (hq : ∀ x, q = dir ++ [x, guid] → dir ++ [x] ∈ d.dirs ∧ ∃ k < 2 ^ 31, x = decimal k) :
    Orderly dir guid limit (d.mkdir q) := by
  refine ⟨fun x hx => ?_, fun f hf => ?_⟩
  · have hx' : dir ++ [x] ∈ d.dirs ∧ ∃ k < 2 ^ 31, x = decimal k :=
      (Tree.mem_dirs_mkdir.mp hx).elim (fun e => hq x e.symm) (h.dirs x)
    exact ⟨Tree.mem_dirs_mkdir.mpr (.inr hx'.1), hx'.2⟩
  · rw [Tree.files_mkdir] at hf
    exact (h.files f hf).mono le_rfl fun p hp => Tree.mem_dirs_mkdir.mpr (.inr hp)

/-- What exists and is no file is a directory. -/
theorem mem_dirs_of_has {p : Path} (h : d.has p = true) (hp : ∀ f ∈ d.files, f.1 ≠ p) : p ∈ d.dirs := by
  rw [Tree.has, Bool.or_eq_true, List.contains_iff_mem] at h
  apply h.resolve_right
  intro hr
  obtain ⟨c, hc⟩ := Option.isSome_iff_exists.mp hr
  exact hp _ (Tree.mem_files_of_read hc) rfl

theorem Orderly.mem_dirs (h : Orderly dir guid limit d) {k : Nat} (hh : d.has (dir ++ [decimal k]) = true) :
    dir ++ [decimal k] ∈ d.dirs := mem_dirs_of_has hh fun f hf => (h.files f hf).notDir k

theorem Orderly.mem_homes (h : Orderly dir guid limit d) {x : Name} (hh : d.has (dir ++ [x, guid]) = true) :
    dir ++ [x, guid] ∈ d.dirs := mem_dirs_of_has hh fun f hf => (h.files f hf).notHome x

end

/-! ## Removing files -/

/-- Files have been removed from a tree. -/
structure Shrunk (d d' : Tree) : Prop where
  dirs : d'.dirs = d.dirs
  files : ∀ f ∈ d'.files, f ∈ d.files

theorem Shrunk.refl (d : Tree) : Shrunk d d := ⟨rfl, fun _ h => h⟩

theorem Shrunk.trans {d₁ d₂ d₃ : Tree} (h : Shrunk d₁ d₂) (h' : Shrunk d₂ d₃) : Shrunk d₁ d₃ :=
  ⟨h'.dirs.trans h.dirs, fun f hf => h.files f (h'.files f hf)⟩

theorem Orderly.shrunk {dir : Path} {guid : Name} {limit : Nat} {d d' : Tree} (h : Orderly dir guid limit d)
    (hs : Shrunk d d') : Orderly dir guid limit d' := h.of_files hs.dirs fun f hf => .inl (hs.files f hf)

/-- All that has happened to the disk is that files have been removed. -/
structure Shrinks (s t : World) : Prop where
  history : ∀ d ∈ t.fs.history, d ∈ s.fs.history ∨ Shrunk s.fs.disk d
  disk : Shrunk s.fs.disk t.fs.disk

instance : Std.Refl Shrinks := ⟨fun _ => ⟨fun _ h => .inl h, .refl _⟩⟩

instance : IsTrans World Shrinks where
  trans _ _ _ h h' :=
    ⟨fun d hd => (h'.history d hd).elim (h.history d) fun hs => .inr (h.disk.trans hs), h.disk.trans h'.disk⟩

theorem tryRemove_shrinks (env : Env) (path : Path) : Moves Shrinks (tryRemove env path) := by
  intro s
  refine .bind (.get (.bind (.modify ?_)))
  split
  · exact .pure ⟨fun _ h => .inl h, .refl _⟩
  · have hr : Shrunk s.fs.disk (s.fs.disk.remove path) := ⟨rfl, fun _ h => Tree.mem_files_remove h⟩
    refine .bind (.modify (.pure ⟨fun d hd => ?_, hr⟩))
    apply (List.mem_append.mp hd).imp_right
    intro hd
    rw [List.mem_singleton.mp hd]
    exact hr

theorem shrinks_removal (env : Env) : RemovalMoves Shrinks env :=
  ⟨tryRemove_shrinks env, fun _ => .modify fun _ => ⟨fun _ h => .inl h, .refl _⟩⟩

/-! ## Writing a block file -/

/-- While the block `current_piece_id_` is being written. -/
structure Placing (dir : Path) (guid : Name) (limit : Nat) (s : World) : Prop where
  dirPath : s.w.dirPath = dir
  guidStr : s.w.guidStr = guid
  bound : s.w.currentPieceId ≤ limit
  history : ∀ d ∈ s.fs.history, Orderly dir guid limit d
  disk : Orderly dir guid limit s.fs.disk
  paths : ∀ b ∈ s.fs.written, b.path = homeOf dir guid b.id ++ [blockName b.id]
  current : s.entersDir = false → s.fs.filePath = homeOf dir guid s.w.currentPieceId ∧
    homeOf dir guid s.w.currentPieceId ∈ s.fs.disk.dirs

section
variable {env : Env} {dir : Path} {guid : Name} {limit : Nat} {s t : World}

/-- A change of the disk that keeps its directories. -/
theorem Placing.onDisk (h : Placing dir guid limit s) {f : Tree → Tree} (ho : Orderly dir guid limit (f s.fs.disk))
    (hd : ∀ p ∈ s.fs.disk.dirs, p ∈ (f s.fs.disk).dirs) : Placing dir guid limit (onDisk f s) := by
  refine ⟨h.dirPath, h.guidStr, h.bound, fun d hm => ?_, ho, h.paths, fun e => ⟨(h.current e).1, hd _ (h.current e).2⟩⟩
  rcases List.mem_append.mp hm with hm | hm
  · exact h.history d hm
  · rw [List.mem_singleton.mp hm]; exact ho

/-- Files have been removed. -/
theorem Placing.shrinks (h : Placing dir guid limit s) (hk : offRemoval t = offRemoval s) (hs : Shrinks s t) :
    Placing dir guid limit t := by
  have hw : t.w = s.w := congrArg (·.w) hk
  have he : t.entersDir = s.entersDir :=
    show (offRemoval t).entersDir = (offRemoval s).entersDir from congrArg World.entersDir hk
  have hp : t.fs.filePath = s.fs.filePath := congrArg (·.fs.filePath) hk
  have hb : t.fs.written = s.fs.written := congrArg (·.fs.written) hk
  refine ⟨hw ▸ h.dirPath, hw ▸ h.guidStr, hw ▸ h.bound, fun d hd => ?_, h.disk.shrunk hs.disk, hb ▸ h.paths, fun e => ?_⟩
  · exact (hs.history d hd).elim (h.history d) h.disk.shrunk
  · rw [hw, hp, hs.disk.dirs]
    exact h.current (he ▸ e)

/-- The directory `q` exists. -/
def dirMade (q : Path) (s : World) : World := if s.fs.disk.has q then s else onDisk (·.mkdir q) s

theorem createDirectories_cons (p : Path) (n : Name) (ns : List Name) (s : World) :
    createDirectories p (n :: ns) s = createDirectories (p ++ [n]) ns (dirMade (p ++ [n]) s) := by
  rw [createDirectories, Prog.bind_ret (Prog.get_apply s), dirMade]
  by_cases hh : s.fs.disk.has (p ++ [n]) = true
  · simp only [hh, Bool.not_true, Bool.false_eq_true, ite_false, ite_true]
  · simp only [hh, Bool.not_false, ite_true, Bool.false_eq_true, ite_false]
    rfl

theorem dirMade_offDisk (q : Path) (s : World) : offDisk (dirMade q s) = offDisk s := by
  rw [dirMade]
  split <;> rfl

theorem Placing.dirMade (h : Placing dir guid limit s) {q : Path}
    (hq : ∀ x, q = dir ++ [x, guid] → dir ++ [x] ∈ s.fs.disk.dirs ∧ ∃ k < 2 ^ 31, x = decimal k) :
    Placing dir guid limit (dirMade q s) := by
  rw [Cutter.dirMade]
  split
  · exact h
  · exact h.onDisk (h.disk.mkdir hq) fun p hp => Tree.mem_dirs_mkdir.mpr (.inr hp)

theorem mem_dirMade {q : Path} (h : s.fs.disk.has q = true → q ∈ s.fs.disk.dirs) : q ∈ (dirMade q s).fs.disk.dirs := by
  rw [dirMade]
  split
  · exact h ‹_›
  · exact Tree.mem_dirs_mkdir.mpr (.inl rfl)

/-- The directories down to `dir` are none of the channel's. -/
theorem createDirectories_above (ms : List Name) :
    ∀ (ns : List Name) {p : Path} {s : World}, Placing dir guid limit s → p.length + ns.length ≤ dir.length →
      ∃ t, createDirectories p (ns ++ ms) s = createDirectories (p ++ ns) ms t ∧ Placing dir guid limit t ∧
        offDisk t = offDisk s
  | [], p, s, h, _ => ⟨s, by rw [List.nil_append, List.append_nil], h, rfl⟩
  | n :: ns, p, s, h, hl => by
    have hm : Placing dir guid limit (dirMade (p ++ [n]) s) := h.dirMade fun x hx => by
      have := congrArg List.length hx
      simp only [List.length_append, List.length_cons, List.length_nil] at this hl
      omega
    obtain ⟨t, ht, h₁, h₂⟩ := createDirectories_above ms ns (p := p ++ [n]) hm
      (by simp only [List.length_append, List.length_cons, List.length_nil] at hl ⊢; omega)
    refine ⟨t, ?_, h₁, h₂.trans (dirMade_offDisk _ s)⟩
    rw [List.cons_append, createDirectories_cons, ht, List.append_assoc]
    rfl

/-- The directory of the block exists then. -/
theorem createDirectories_home (h : Placing dir guid limit s) (hl : limit < 2 ^ 31) :
    ∃ t, createDirectories [] (homeOf dir guid s.w.currentPieceId) s = .ret () t ∧ Placing dir guid limit t ∧
      offDisk t = offDisk s ∧ homeOf dir guid s.w.currentPieceId ∈ t.fs.disk.dirs := by
  obtain ⟨t, ht, h₁, h₂⟩ := createDirectories_above [decimal (s.w.currentPieceId / dirScale), guid] dir (p := []) h
    (by simp)
  have hk : s.w.currentPieceId / dirScale < 2 ^ 31 := by
    have := Nat.div_le_self s.w.currentPieceId dirScale
    have := h.bound
    omega
  have hu : Placing dir guid limit (dirMade (dir ++ [decimal (s.w.currentPieceId / dirScale)]) t) :=
    h₁.dirMade fun x hx => by
      have := congrArg List.length hx
      simp at this
  have hmem := mem_dirMade (s := t) (q := dir ++ [decimal (s.w.currentPieceId / dirScale)]) h₁.disk.mem_dirs
  rw [homeOf, ht, List.nil_append, createDirectories_cons, createDirectories_cons, List.append_assoc]
  refine ⟨_, rfl, hu.dirMade fun x hx => ?_, (dirMade_offDisk _ _).trans ((dirMade_offDisk _ _).trans h₂),
    mem_dirMade hu.disk.mem_homes⟩
  obtain rfl : decimal (s.w.currentPieceId / dirScale) = x := by
    simpa using hx
  exact ⟨hmem, _, hk, rfl⟩

/-- The path of the block being written, or none. -/
def PathOk (dir : Path) (guid : Name) (path : Path) (s : World) : Prop :=
  path = [] ∨ path = homeOf dir guid s.w.currentPieceId ++ [blockName s.w.currentPieceId] ∧
    homeOf dir guid s.w.currentPieceId ∈ s.fs.disk.dirs

theorem getFilePathName_placing (hl : limit < 2 ^ 31) (h : Placing dir guid limit s) (fault : Fault) :
    WP (getFilePathName fault) s (fun path t => Placing dir guid limit t ∧ PathOk dir guid path t) (fun _ => False) := by
  have hdir : s.w.dirPath ++ [decimal (s.w.currentPieceId / dirScale), s.w.guidStr] =
      homeOf dir guid s.w.currentPieceId := by rw [h.dirPath, h.guidStr, homeOf]
  refine .bind (.get ?_)
  simp only [hdir]
  split
  · rename_i he
    have hp : Placing dir guid limit { s with fs := { s.fs with filePath := homeOf dir guid s.w.currentPieceId } } :=
      ⟨h.dirPath, h.guidStr, h.bound, h.history, h.disk, h.paths, fun e => absurd (he.symm.trans e) (by decide)⟩
    refine .bind (.modify ?_)
    split
    · exact .pure ⟨hp, .inl rfl⟩
    · obtain ⟨t, ht, h₁, h₂, h₃⟩ := createDirectories_home hp hl
      have hi : t.w.currentPieceId = s.w.currentPieceId := congrArg (·.w.currentPieceId) h₂
      have hf : t.fs.filePath = homeOf dir guid s.w.currentPieceId := congrArg (·.fs.filePath) h₂
      have hm : homeOf dir guid s.w.currentPieceId ∈ t.fs.disk.dirs := h₃
      refine .bind (.of_ret ht (.bind (.modify (.pure ⟨?_, .inr ?_⟩))))
      · exact ⟨h₁.dirPath, h₁.guidStr, h₁.bound, h₁.history, h₁.disk, h₁.paths, fun _ => by simp only [hi]; exact ⟨hf, hm⟩⟩
      · simp only [hi]
        exact ⟨trivial, hm⟩
  · rename_i he
    obtain ⟨hf, hm⟩ := h.current (Bool.eq_false_iff.mpr he)
    exact .pure ⟨h, .inr ⟨by rw [hf], hm⟩⟩

/-- A file in a directory of the channel. -/
theorem fileOk_inside {dirs : List Path} {x n : Name} {c : List Byte} (hm : dir ++ [x, guid] ∈ dirs)
    (hb : extension n = blockExtension → ∃ id, n = blockName id ∧ x = decimal (id / dirScale) ∧ c ≠ [] ∧ id ≤ limit) :
    FileOk dir guid limit dirs (dir ++ [x, guid, n], c) := by
  have hlen : ∀ {l : List Name}, l.length < 3 → dir ++ [x, guid, n] ≠ dir ++ l := fun hl e => by
    have := congrArg List.length e
    simp only [List.length_append, List.length_cons, List.length_nil] at this
    omega
  refine ⟨fun k => hlen (by simp), fun y => hlen (by simp), fun y m e => ?_, fun y m e => ?_⟩
  · cases List.append_cancel_left e
    exact hm
  · cases List.append_cancel_left e
    exact hb

/-- The temporary file is none of the channel's blocks. -/
theorem fileOk_tmp {path : Path} (hp : PathOk dir guid path s) (c : List Byte) :
    FileOk dir guid limit s.fs.disk.dirs (tmpPath path, c) := by
  rcases hp with rfl | ⟨rfl, hm⟩
  · -- the file `.tmp` of the working directory
    have hlen : ∀ {l : List Name}, 1 < l.length → tmpPath [] ≠ dir ++ l := fun hl e => by
      have := congrArg List.length e
      simp [tmpPath] at this
      omega
    refine ⟨fun k e => ?_, fun x => hlen (by simp), fun x n e => absurd e (hlen (by simp)), fun x n e => absurd e (hlen (by simp))⟩
    have hk : decimal k = tmpExtension := by
      have := congrArg List.getLast? e
      rw [List.getLast?_concat] at this
      exact (Option.some.inj this).symm
    exact dot_not_mem_decimal k (by rw [hk]; decide)
  · have ht : tmpPath (homeOf dir guid s.w.currentPieceId ++ [blockName s.w.currentPieceId]) =
        dir ++ [decimal (s.w.currentPieceId / dirScale), guid, blockName s.w.currentPieceId ++ tmpExtension] := by
      simp [tmpPath, homeOf]
    rw [ht]
    exact fileOk_inside hm fun e => by rw [extension_tmp] at e; exact absurd e (by decide)

/-- The finished block. -/
theorem fileOk_block (h : Placing dir guid limit s) (hm : homeOf dir guid s.w.currentPieceId ∈ s.fs.disk.dirs)
    {c : List Byte} (hc : c ≠ []) : FileOk dir guid limit s.fs.disk.dirs
      (homeOf dir guid s.w.currentPieceId ++ [blockName s.w.currentPieceId], c) := by
  rw [homeOf, List.append_assoc]
  exact fileOk_inside hm fun _ => ⟨_, rfl, rfl, hc, h.bound⟩

theorem Placing.tmp (h : Placing dir guid limit s) {path : Path} (hp : PathOk dir guid path s) (c : List Byte) :
    Placing dir guid limit (Cutter.onDisk (·.write (tmpPath path) c) s) :=
  h.onDisk (h.disk.of_files rfl fun _ hf => (Tree.mem_files_write hf).elim (fun e => .inr (e ▸ fileOk_tmp hp c)) .inl)
    fun _ hd => hd

theorem Placing.remove (h : Placing dir guid limit s) (path : Path) :
    Placing dir guid limit (Cutter.onDisk (·.remove path) s) :=
  h.onDisk (h.disk.of_files rfl fun _ hf => .inl (Tree.mem_files_remove hf)) fun _ hd => hd

/-- The temporary file is moved into place. -/
theorem renameBlock_placing (env : Env) (kind : BlockKind) (h : Placing dir guid limit s) {c : List Byte} (hc : c ≠ [])
    (hm : homeOf dir guid s.w.currentPieceId ∈ s.fs.disk.dirs) {path : Path}
    (hp : path = homeOf dir guid s.w.currentPieceId ++ [blockName s.w.currentPieceId])
    (hr : s.fs.disk.read (tmpPath path) = some c) (hne : tmpPath path ≠ path) :
    WP (renameBlock env kind path) s (fun _ t => Placing dir guid limit t) (fun _ => False) := by
  have hmove : ∀ u : World, Placing dir guid limit u → u.w = s.w → u.fs.disk.dirs = s.fs.disk.dirs →
      u.fs.disk.read (tmpPath path) = some c → WP (do
        diskOp (·.rename (tmpPath path) path)
        Prog.modify fun t => { t with fs := { t.fs with
          written := t.fs.written ++
            [⟨kind, t.w.currentPieceId, path, (t.fs.disk.read path).getD [], t.now env⟩] } }) u
        (fun _ t => Placing dir guid limit t) (fun _ => False) := fun u hu hw hd hread => by
    have hp' : path = homeOf dir guid u.w.currentPieceId ++ [blockName u.w.currentPieceId] := by rw [hw]; exact hp
    have hm' : homeOf dir guid u.w.currentPieceId ∈ u.fs.disk.dirs := by rw [hw, hd]; exact hm
    have ho : Orderly dir guid limit (u.fs.disk.rename (tmpPath path) path) :=
      hu.disk.of_files (Tree.dirs_rename _ _ _) fun f hf => (Tree.mem_files_rename hread hf).elim
        (fun e => .inr (by rw [e, hp']; exact fileOk_block hu hm' hc)) .inl
    have hv : Placing dir guid limit (Cutter.onDisk (·.rename (tmpPath path) path) u) :=
      hu.onDisk ho fun p hp => by rw [Tree.dirs_rename]; exact hp
    refine .bind (.of_ret (diskOp_apply _ u) (.modify ⟨hv.dirPath, hv.guidStr, hv.bound, hv.history, hv.disk, ?_, hv.current⟩))
    intro b hb
    rcases List.mem_append.mp hb with hb | hb
    · exact hv.paths b hb
    · rw [List.mem_singleton.mp hb]; exact hp'
  refine .bind (.get ?_)
  split
  · exact .bind (.of_ret (diskOp_apply _ s) (hmove _ (h.remove path) rfl rfl ((Tree.read_remove hne).trans hr)))
  · exact hmove s h rfl rfl hr

theorem writeFile_placing (env : Env) (kind : BlockKind) {content : List Byte} (hc : content ≠ []) (e : Int) (fault : Fault)
    {path : Path} (h : Placing dir guid limit s) (hp : PathOk dir guid path s) (hne : path ≠ [] → tmpPath path ≠ path) :
    WP (writeFile env kind content e fault path) s (fun _ t => Placing dir guid limit t) (fun _ => False) := by
  have ho := h.tmp hp []
  have hp' : PathOk dir guid path (Cutter.onDisk (·.write (tmpPath path) []) s) := hp
  have hw := ho.tmp hp' content
  have hlast : WP (if path = [] then (pure enoent : Prog World Int) else do
      renameBlock env kind path
      pure e) (Cutter.onDisk (·.write (tmpPath path) content) (Cutter.onDisk (·.write (tmpPath path) []) s))
      (fun _ t => Placing dir guid limit t) (fun _ => False) := by
    split
    · exact .pure hw
    · rename_i hne'
      obtain ⟨hpath, hm⟩ := hp.resolve_left hne'
      exact .seq (renameBlock_placing env kind hw hc hm hpath (Tree.read_write _ _ _) (hne hne')) fun _ _ ht => .pure ht
  unfold writeFile
  split
  · exact .pure h
  · refine .bind (.of_ret (diskOp_apply _ s) ?_)
    split
    · exact .pure ho
    · refine .bind (.of_ret (diskOp_apply _ _) ?_)
      cases fault with
      | rename removed code =>
        cases removed with
        | true => exact .bind (.of_ret (diskOp_apply _ _) (.pure (hw.remove path)))
        | false => exact .pure hw
      | none => exact hlast
      | createDirectories => exact hlast
      | openFile => exact hlast
      | write => exact hlast

/-- An attempt, successful or not. -/
theorem attempt_placing (hl : limit < 2 ^ 31) (env : Env) (kind : BlockKind) (data : Piece) (e : Int)
    (h : Placing dir guid limit s) :
    WP (attempt env kind data e) s (fun _ t => Placing dir guid limit t) (fun _ => False) := by
  have ha : Placing dir guid limit { s with fs := { s.fs with attempts := s.fs.attempts + 1 } } :=
    ⟨h.dirPath, h.guidStr, h.bound, h.history, h.disk, h.paths, h.current⟩
  have hc : s.w.blockHeader.serialize ++ data.flatten ≠ [] := fun e => by
    have := congrArg List.length e
    rw [List.length_append, length_serialize] at this
    simp at this
  refine .bind (.get (.bind (.modify (.seq (getFilePathName_placing hl ha _) fun path t ht => ?_))))
  have hne : path ≠ [] → tmpPath path ≠ path := fun hp => by
    rw [(ht.2.resolve_left hp).1]
    intro e
    have := congrArg (fun p => (p.getLast?.getD []).length) e
    simp [tmpPath, tmpExtension] at this
  exact .seq (writeFile_placing env kind hc e _ ht.1 ht.2 hne) fun _ _ hu => .pure hu

/-- The retry loop, returned or not. -/
theorem writeLoop_placing (hl : limit < 2 ^ 31) (env : Env) (kind : BlockKind) (data : Piece) (len : Nat) :
    ∀ (fuel : Nat) (e : Int) (n : Nat) {s : World}, Placing dir guid limit s →
      WP (writeLoop env kind data len fuel e n) s (fun _ t => Placing dir guid limit t) (Placing dir guid limit)
  | 0, _, _, _, h => .running h
  | fuel + 1, e, n, s, h => by
    refine .seq ((attempt_placing hl env kind data e h).mono (fun _ _ h => h) fun _ h => h.elim) fun r t ht => ?_
    split
    · split
      · have hd := (decreasePiece_offRemoval env len t).and (decreasePiece_moves (shrinks_removal env) len t)
        exact .seq (hd.mono (fun _ _ hu => ht.shrinks hu.1 hu.2) fun _ hu => ht.shrinks hu.1 hu.2) fun _ u hu =>
          writeLoop_placing hl env kind data len fuel _ _ hu
      · exact writeLoop_placing hl env kind data len fuel _ _ ht
    · exact .pure ht

/-- Behind the loop the directory of the block is the current one. -/
theorem writeLoop_entersDir (env : Env) (kind : BlockKind) (data : Piece) (len fuel n : Nat) (s : World) :
    WP (writeLoop env kind data len fuel 0 n) s (fun _ t => t.entersDir = false) (fun _ => True) := by
  refine .intro (fun _ t e => ?_) (fun _ _ => trivial) (writeLoop_offFiles env kind data len fuel 0 n s).not_ub
  obtain ⟨hF, -, ha⟩ := not_fails_of_writeLoop e
  have hw : t.w = s.w := congrArg Prod.fst ha.offFiles
  have hd := (ha.placed hF).2.2.2.2.1
  by_cases he : s.entersDir = true
  · rw [World.entersDir, hd, if_pos he, hw, List.getLast?_concat]
    exact bne_self_eq_false _
  · rw [World.entersDir, hd, if_neg he, hw]
    exact Bool.eq_false_iff.mpr he

/-! ## Runs -/

/-- The greatest id a block can have at the time `now`. -/
def idLimit (now : Nat) : Nat := min (now + 2 ^ 30) (2 ^ 31 - 1)

theorem idLimit_lt (now : Nat) : idLimit now < 2 ^ 31 := by
  simp only [idLimit]; omega

theorem idLimit_mono {m n : Nat} (h : m ≤ n) : idLimit m ≤ idLimit n := by
  simp only [idLimit]; omega

/-- What holds at any time, of all states of the disk and of the blocks put in
place. -/
structure Traced (env : Env) (dir : Path) (guid : Name) (s : World) : Prop where
  history : ∀ d ∈ s.fs.history, Orderly dir guid (idLimit (s.now env)) d
  paths : ∀ b ∈ s.fs.written, b.path = homeOf dir guid b.id ++ [blockName b.id]

/-- What holds between the handlers. -/
structure Stored (env : Env) (dir : Path) (guid : Name) (s : World) : Prop extends Traced env dir guid s where
  dirPath : s.w.dirPath = dir
  guidStr : s.w.guidStr = guid
  disk : Orderly dir guid (idLimit (s.now env)) s.fs.disk
  current : ∀ e, s.fs.dirQueue.getLast? = some e →
    s.fs.filePath = dir ++ [decimal e.id, guid] ∧ dir ++ [decimal e.id, guid] ∈ s.fs.disk.dirs

/-- A change that touches neither the disk nor the queue of directories; time
may pass. -/
theorem Stored.of_eq (h : Stored env dir guid s) (hd : t.w.dirPath = s.w.dirPath) (hg : t.w.guidStr = s.w.guidStr)
    (hf : t.fs = s.fs) (hn : s.now env ≤ t.now env) : Stored env dir guid t := by
  refine ⟨⟨fun d hm => ?_, by rw [hf]; exact h.paths⟩, hd.trans h.dirPath, hg.trans h.guidStr, ?_, by rw [hf]; exact h.current⟩
  · rw [hf] at hm
    exact (h.history d hm).mono (idLimit_mono hn)
  · rw [hf]
    exact h.disk.mono (idLimit_mono hn)

theorem Stored.placing (h : Stored env dir guid s) (hb : s.w.currentPieceId ≤ idLimit (s.now env)) :
    Placing dir guid (idLimit (s.now env)) s := by
  refine ⟨h.dirPath, h.guidStr, hb, h.history, h.disk, h.paths, fun e => ?_⟩
  have he : s.fs.dirQueue.getLast?.map (·.id) = some (s.w.currentPieceId / dirScale) := by
    simpa [World.entersDir] using e
  obtain ⟨i, hi, hid⟩ := Option.map_eq_some_iff.mp he
  have := h.current i hi
  rw [hid] at this
  exact ⟨this.1, this.2⟩

theorem Placing.stored (h : Placing dir guid (idLimit (s.now env)) s) (he : s.entersDir = false) : Stored env dir guid s := by
  refine ⟨⟨h.history, h.paths⟩, h.dirPath, h.guidStr, h.disk, fun i hi => ?_⟩
  have hid : s.fs.dirQueue.getLast?.map (·.id) = some (s.w.currentPieceId / dirScale) := by
    simpa [World.entersDir] using he
  rw [hi, Option.map_some, Option.some.injEq] at hid
  rw [hid]
  exact h.current he

theorem Stored.shrinks (h : Stored env dir guid s) (hk : offRemoval t = offRemoval s) (hs : Shrinks s t) :
    Stored env dir guid t := by
  have hw : t.w = s.w := congrArg (·.w) hk
  have hr : t.reads = s.reads := congrArg (·.reads) hk
  have hn : t.now env = s.now env := by rw [World.now, World.now, hr]
  have hb : t.fs.written = s.fs.written := congrArg (·.fs.written) hk
  have hq : t.fs.dirQueue = s.fs.dirQueue := congrArg (·.fs.dirQueue) hk
  have hp : t.fs.filePath = s.fs.filePath := congrArg (·.fs.filePath) hk
  refine ⟨⟨fun d hd => ?_, hb ▸ h.paths⟩, hw ▸ h.dirPath, hw ▸ h.guidStr, ?_, ?_⟩
  · rw [hn]; exact (hs.history d hd).elim (h.history d) h.disk.shrunk
  · rw [hn]; exact h.disk.shrunk hs.disk
  · rw [hq, hp, hs.disk.dirs]; exact h.current

theorem writeBlock_stored (h : Stored env dir guid s) (hb : s.w.currentPieceId ≤ idLimit (s.now env)) (fuel : Nat)
    (kind : BlockKind) (data : Piece) (len n : Nat) :
    WP (writeBlock env fuel kind data len n) s (fun _ t => Stored env dir guid t) (Traced env dir guid) := by
  have hp : Placing dir guid (idLimit (s.now env)) (headed env len data s) :=
    (h.of_eq (t := headed env len data s) rfl rfl rfl le_rfl).placing hb
  have hw := writeLoop_placing (idLimit_lt _) env kind data (u32 (len + flvBlockHeaderTSize)) fuel 0 n hp
  have hk := writeLoop_offFiles env kind data (u32 (len + flvBlockHeaderTSize)) fuel 0 n (headed env len data s)
  have he := writeLoop_entersDir env kind data (u32 (len + flvBlockHeaderTSize)) fuel n (headed env len data s)
  have hnow : ∀ t, offFiles t = offFiles (headed env len data s) → t.now env = s.now env := fun t hk =>
    congrArg (fun r : Writer × Nat × List Bool => env.utc (r.2.1 - 1)) hk
  refine .bind (.modify (.seq (((hw.and hk).and he).mono (fun _ _ h => h) fun t ht => ?_) fun path t ht => ?_))
  · rw [← hnow t ht.1.2] at ht
    exact ⟨ht.1.1.history, ht.1.1.paths⟩
  · obtain ⟨⟨ht, hk⟩, he⟩ := ht
    rw [← hnow t hk] at ht
    have hst := ht.stored he
    exact .modify ⟨⟨hst.history, hst.paths⟩, hst.dirPath, hst.guidStr, hst.disk, hst.current⟩

theorem writeOneSpecialPiece_stored (h : Stored env dir guid s) (hb : s.w.currentPieceId ≤ idLimit (s.now env)) (fuel : Nat)
    {specialType : Nat} (hty : specialType ≤ 1) :
    WP (writeOneSpecialPiece env fuel specialType) s (fun _ t => Stored env dir guid t) (Traced env dir guid) := by
  have hp : Stored env dir guid (specialStart specialType s) := h.of_eq rfl rfl rfl le_rfl
  unfold WP
  rw [writeOneSpecialPiece_eq env fuel hty]
  exact writeBlock_stored hp hb fuel _ _ _ _

theorem writePiece_stored (h : Stored env dir guid s) (hb : s.w.currentPieceId ≤ idLimit (s.now env)) (fuel : Nat)
    (piece : Piece) : WP (writePiece env fuel piece) s (fun _ t => Stored env dir guid t) (Traced env dir guid) := by
  have hp : Stored env dir guid (cued s) := h.of_eq rfl rfl rfl le_rfl
  unfold WP
  rw [writePiece_eq]
  exact writeBlock_stored hp hb fuel _ _ _ _

end

/-- The ids of a run with `piece_scale_` `S` stay below `2^31`. -/
def IdsFit (env : Env) (S : Nat) : Prop := ∀ i, env.utc i + S < 2 ^ 31

/-- The invariant of the writer's thread, with its timeline. -/
theorem stored_invariant {env : Env} {S : Nat} {first : Option Nat} {dir : Path} {guid : Name} (hc : Steady env)
    (hS : ScaleFits S) (hi : IdsFit env S) :
    Invariant env (fun s => Timeline env S first s ∧ Stored env dir guid s)
      (fun s => Passed env S first s ∧ Stored env dir guid s) (fun s => Timed env S first s ∧ Traced env dir guid s) := by
  have hT : Invariant env (Timeline env S first) (Passed env S first) (Timed env S first) := timeline_invariant hc hS
  have hlim : ∀ s : World, s.w.currentPieceId ≤ s.now env + S → s.w.currentPieceId ≤ idLimit (s.now env) := fun s h => by
    have hlt : s.now env + S < 2 ^ 31 := hi _
    have hS₂ := hS.2
    simp only [idLimit]
    omega
  have hbehind : ∀ s : World, Timeline env S first s → s.w.slotsBehind (s.now env) > 0 →
      s.w.currentPieceId ≤ idLimit (s.now env) := fun s h hb => hlim s (by
    have := (h.behind_iff hc hS).mp hb
    omega)
  exact {
    running := fun s h => ⟨hT.running s h.1, h.2.toTraced⟩
    passed := fun s h => ⟨hT.passed s h.1, h.2⟩
    inert := fun h hk => ⟨hT.inert h.1 hk, h.2.of_eq (congrArg Writer.dirPath hk.w : (offFlags _).dirPath = (offFlags _).dirPath)
      (congrArg Writer.guidStr hk.w : (offFlags _).guidStr = (offFlags _).guidStr) hk.fs (le_of_eq (hk.slots env).2.2.symm)⟩
    tick := fun s h => ⟨hT.tick s h.1, h.2.of_eq rfl rfl rfl (hc.now_ticked s)⟩
    tickPassed := fun s h => ⟨hT.tickPassed s h.1, h.2.of_eq rfl rfl rfl (hc.now_ticked s)⟩
    special := fun n s hty h hb => (hT.special n s hty h.1 hb).and (writeOneSpecialPiece_stored h.2 (hbehind s h.1 hb) n hty)
    specialPassed := fun n s h hb => (hT.specialPassed n s h.1 hb).and
      (writeOneSpecialPiece_stored h.2 (hbehind s h.1.toTimeline hb) n le_rfl)
    guard := fun s h hg => ⟨hT.guard s h.1 hg, h.2⟩
    begin := fun s h h₀ => ⟨hT.begin s h.1 h₀, h.2.of_eq rfl rfl rfl le_rfl⟩
    header := fun p s h => ⟨hT.header p s h.1, h.2.of_eq rfl rfl rfl le_rfl⟩
    piece := fun n p s h => (hT.piece n p s h.1).and (writePiece_stored h.2 (hlim s h.1.notAhead) n p)
    expire := fun expired s h => (hT.expire expired s h.1).and
      (((dropExpired_offRemoval env expired s.fs.pieceFileQueue s).and (dropExpired_moves (shrinks_removal env) expired _ s)).mono
        (fun _ _ hk => h.2.shrinks hk.1 hk.2) fun _ hk => (h.2.shrinks hk.1 hk.2).toTraced)
    dirs := fun ds s hd h => ⟨hT.dirs ds s hd h.1, ⟨⟨h.2.history, h.2.paths⟩, h.2.dirPath, h.2.guidStr, h.2.disk, fun e he => by
      obtain ⟨l, hl⟩ := hd
      apply h.2.current e
      have he : ds.getLast? = some e := he
      rw [← hl, List.getLast?_append, he]
      rfl⟩⟩
    update := fun h hu => ⟨hT.update h.1 hu, by
      obtain ⟨_, _, _, _, -, -, ⟨_, -, rfl⟩ | ⟨-, rfl⟩⟩ := handleUpdateHeader_cases hu
      · exact h.2.of_eq rfl rfl rfl le_rfl
      · exact h.2.of_eq rfl rfl rfl le_rfl⟩ }

end XH.Proof.Cutter
