import Mathlib.Data.List.Infix
import Xhome.Framework.Runs
import Xhome.Impl.Cutter.PieceFile
import Xhome.Proof.Cutter.Retry

/-!
# Attempts to write a piece file

What one attempt does (`attemptPiece_outcome`, `attemptHead_outcome`): it is
stopped before the rename, or by an exception, or it has put the file in place.
An attempt that fails leaves `error_value` set, and no later one resets it.
Therefore the loop of `HandleWritePiece` returns only if its first attempt
succeeds (`retryLoop_stays`), and that of `WriteOneSpecialPiece` else leaves
with the name of a temporary file in `file_path_` (`retryLoop_leaves`).
-/

namespace XH.Proof.Cutter

open XH.Impl.Cutter

variable {ρ κ : Type}

/-! ## Names -/

/-- The path of a temporary file. -/
def IsTmp (p : Path) : Prop := extension (p.getLast?.getD []) = tmpExtension

/-- The path of a head piece. -/
def IsHead (p : Path) : Prop := extension (p.getLast?.getD []) = headExtension

/-- An extension of the files a writer puts in place. -/
def PieceExtension (ext : Name) : Prop := ext = pieceExtension ∨ ext = flvExtension

/-- The path of a piece in the directory `p`. -/
def pieceFile (p : Path) (id : Nat) (ext : Name) : Path := p ++ [decimal id ++ ext]

/-- The path of the temporary file of a piece. -/
def pieceTmp (p : Path) (id : Nat) (ext : Name) : Path := p ++ [tmpName id ext]

theorem isTmp_pieceTmp (p : Path) (id : Nat) (ext : Name) : IsTmp (pieceTmp p id ext) := by
  show extension ((p ++ [tmpName id ext]).getLast?.getD []) = tmpExtension
  rw [List.getLast?_concat]
  exact extension_append (a := decimal id ++ ext) (b := ['t', 'm', 'p']) (by decide)

theorem not_isHead_of_isTmp {p : Path} (h : IsTmp p) : ¬ IsHead p := fun e => absurd (h.symm.trans e) (by decide)

theorem replaceExtension_pieceTmp (p : Path) (id : Nat) (ext ext' : Name) :
    replaceExtension (pieceTmp p id ext) ext' = p ++ [decimal id ++ ext ++ ext'] := by
  have hs : stem (tmpName id ext) = decimal id ++ ext :=
    stem_append (a := decimal id ++ ext) (b := ['t', 'm', 'p']) (by decide)
  rw [replaceExtension, pieceTmp, List.dropLast_concat, List.getLast?_concat, Option.getD_some, hs]

/-- Without the extension of the temporary file a piece has its own name. -/
theorem replaceExtension_tmp (p : Path) (id : Nat) (ext : Name) :
    replaceExtension (pieceTmp p id ext) [] = pieceFile p id ext := by
  rw [replaceExtension_pieceTmp, List.append_nil, pieceFile]

theorem extension_pieceFile {ext : Name} (h : PieceExtension ext) (p : Path) (id : Nat) :
    extension ((pieceFile p id ext).getLast?.getD []) = ext := by
  rw [pieceFile, List.getLast?_concat]
  rcases h with rfl | rfl
  · exact extension_append (a := decimal id) (b := ['p', 'i', 'e', 'c', 'e']) (by decide)
  · exact extension_append (a := decimal id) (b := ['f', 'l', 'v']) (by decide)

/-- The directory that a piece is in. -/
theorem dropLast_pieceFile (p : Path) (id : Nat) (ext : Name) : (pieceFile p id ext).dropLast = p := by
  rw [pieceFile, List.dropLast_concat]

theorem PieceExtension.ne {ext : Name} (h : PieceExtension ext) : ext ≠ tmpExtension ∧ ext ≠ headExtension := by
  rcases h with rfl | rfl
  · decide
  · decide

theorem not_isTmp_pieceFile {ext : Name} (h : PieceExtension ext) (p : Path) (id : Nat) : ¬ IsTmp (pieceFile p id ext) :=
  fun e => h.ne.1 ((extension_pieceFile h p id).symm.trans e)

theorem not_isHead_pieceFile {ext : Name} (h : PieceExtension ext) (p : Path) (id : Nat) :
    ¬ IsHead (pieceFile p id ext) :=
  fun e => h.ne.2 ((extension_pieceFile h p id).symm.trans e)

/-- The path of a head piece in the directory `p`. -/
def headFile (p : Path) (id : Nat) : Path := p ++ [decimal id ++ pieceExtension ++ headExtension]

theorem isHead_headFile (p : Path) (id : Nat) : IsHead (headFile p id) := by
  show extension ((p ++ [decimal id ++ pieceExtension ++ headExtension]).getLast?.getD []) = headExtension
  rw [List.getLast?_concat]
  exact extension_append (a := decimal id ++ pieceExtension) (b := ['h', 'e', 'a', 'd']) (by decide)

theorem not_isTmp_headFile (p : Path) (id : Nat) : ¬ IsTmp (headFile p id) := fun e =>
  absurd ((isHead_headFile p id).symm.trans e) (by decide)

/-- The copy of a head piece is the piece. -/
theorem replaceExtension_head (p : Path) (id : Nat) :
    replaceExtension (headFile p id) [] = pieceFile p id pieceExtension := by
  have hs : stem (decimal id ++ pieceExtension ++ headExtension) = decimal id ++ pieceExtension :=
    stem_append (a := decimal id ++ pieceExtension) (b := ['h', 'e', 'a', 'd']) (by decide)
  rw [replaceExtension, headFile, List.dropLast_concat, List.getLast?_concat, Option.getD_some, hs, List.append_nil,
    pieceFile]

theorem appendExtension_piece (p : Path) (id : Nat) :
    appendExtension (pieceFile p id pieceExtension) headExtension = headFile p id := by
  rw [appendExtension, pieceFile, List.dropLast_concat, List.getLast?_concat, Option.getD_some, headFile]

theorem ne_of_isTmp {p q : Path} (hp : IsTmp p) (hq : ¬ IsTmp q) : q ≠ p := fun e => hq (e ▸ hp)

/-! ## Code of the base class -/

theorem onBase_wp {α : Type} {m : Prog World α} {s : PieceWorld ρ κ} {Q : α → PieceWorld ρ κ → Prop}
    {I : PieceWorld ρ κ → Prop} (h : WP m s.base (fun a b => Q a { s with base := b }) fun b => I { s with base := b }) :
    WP (onBase m) s Q I := by
  unfold WP onBase at *
  cases e : m s.base with
  | ret a b => rw [e] at h; exact h
  | run b => rw [e] at h; exact h
  | ub => rw [e] at h; exact h

theorem onBase_ret {α : Type} {m : Prog World α} {s : PieceWorld ρ κ} {a : α} {b : World} (h : m s.base = .ret a b) :
    onBase m s = .ret a { s with base := b } := by
  rw [onBase, h]

/-! ## Removing and writing files -/

/-- Every head piece of `d'` is one of `d`. -/
def HeadsKept (d d' : Tree) : Prop := ∀ f ∈ d'.files, IsHead f.1 → f ∈ d.files

theorem HeadsKept.trans {d₁ d₂ d₃ : Tree} (h : HeadsKept d₁ d₂) (h' : HeadsKept d₂ d₃) : HeadsKept d₁ d₃ :=
  fun f hf hh => h f (h' f hf hh) hh

theorem headsKept_remove (d : Tree) (p : Path) : HeadsKept d (d.remove p) := fun _ hf _ => Tree.mem_files_remove hf

theorem headsKept_write {p : Path} (hp : ¬ IsHead p) (d : Tree) (c : List Byte) : HeadsKept d (d.write p c) := by
  intro f hf hh
  rcases Tree.mem_files_write hf with rfl | hm
  · exact absurd hh hp
  · exact hm

/-- Files other than head pieces are written, and files removed; the
directories and the rest of the state stay. -/
structure Calm (s t : World) : Prop where
  rest : offRemoval t = offRemoval s
  dirs : t.fs.disk.dirs = s.fs.disk.dirs
  heads : HeadsKept s.fs.disk t.fs.disk
  history : ∃ l, t.fs.history = s.fs.history ++ l ∧ ∀ d ∈ l, HeadsKept s.fs.disk d

instance : Std.Refl Calm := ⟨fun _ => ⟨rfl, rfl, fun _ h _ => h, [], (List.append_nil _).symm, fun _ h => by cases h⟩⟩

theorem Calm.trans {s t u : World} (h : Calm s t) (h' : Calm t u) : Calm s u := by
  obtain ⟨l, hl, hd⟩ := h.history
  obtain ⟨l', hl', hd'⟩ := h'.history
  refine ⟨h'.rest.trans h.rest, h'.dirs.trans h.dirs, h.heads.trans h'.heads, l ++ l', ?_, fun d hm => ?_⟩
  · rw [hl', hl, List.append_assoc]
  · rcases List.mem_append.mp hm with hm | hm
    · exact hd d hm
    · exact h.heads.trans (hd' d hm)

instance : IsTrans World Calm := ⟨fun _ _ _ h h' => h.trans h'⟩

theorem diskOp_calm {f : Tree → Tree} (hd : ∀ d, (f d).dirs = d.dirs) (hf : ∀ d, HeadsKept d (f d)) :
    Moves Calm (diskOp f) :=
  .modify fun s => ⟨rfl, hd _, hf _, [f s.fs.disk], rfl, fun d hm => by rw [List.mem_singleton.mp hm]; exact hf _⟩

theorem remove_calm (p : Path) : Moves Calm (diskOp (·.remove p)) :=
  diskOp_calm (fun _ => rfl) fun d => headsKept_remove d p

theorem write_calm {p : Path} (hp : ¬ IsHead p) (c : List Byte) : Moves Calm (diskOp (·.write p c)) :=
  diskOp_calm (fun _ => rfl) fun d => headsKept_write hp d c

theorem tryRemove_calm (env : Env) (path : Path) : Moves Calm (tryRemove env path) :=
  .bind .read fun _ => .bind (.modify fun _ => ⟨rfl, rfl, fun _ h _ => h, [], (List.append_nil _).symm,
    fun _ h => by cases h⟩) fun _ => .ite (.pure _) (.bind (remove_calm path) fun _ => .pure _)

/-- Only the queue of pieces changes. -/
theorem queue_calm (f : World → List PieceFileInfo) :
    Moves Calm (Prog.modify fun s => { s with fs := { s.fs with pieceFileQueue := f s } }) :=
  .modify fun _ => ⟨rfl, rfl, fun _ h _ => h, [], (List.append_nil _).symm, fun _ h => by cases h⟩

theorem calm_removal (env : Env) : RemovalMoves Calm env := ⟨tryRemove_calm env, queue_calm⟩

theorem writeThrough_calm {p : Path} (hp : ¬ IsHead p) : ∀ cs : List (List Byte), Moves Calm (writeThrough p cs)
  | [] => .pure ()
  | _ :: cs => .bind (write_calm hp _) fun _ => writeThrough_calm hp cs

theorem exists_inits (content : List Byte) : ∃ l, content.inits = l ++ [content] := by
  induction content with
  | nil => exact ⟨[], rfl⟩
  | cons b bs ih =>
    obtain ⟨l, hl⟩ := ih
    exact ⟨[] :: l.map (b :: ·), by rw [List.inits, hl, List.map_append]; rfl⟩

/-- The file has the last of the contents. -/
theorem writeThrough_disk (p : Path) (c : List Byte) :
    ∀ (l : List (List Byte)) (s : World),
      WP (writeThrough p (l ++ [c])) s (fun _ t => t.fs.disk = s.fs.disk.write p c) (fun _ => False)
  | [], _ => .bind (.modify (.pure rfl))
  | c' :: l, s => by
    refine .bind (.modify ((writeThrough_disk p c l _).mono (fun _ t ht => ?_) fun _ h => h))
    rw [ht]
    exact Tree.write_write s.fs.disk p c' c

theorem writeThrough_wp {p : Path} (hp : ¬ IsHead p) (content : List Byte) (s : World) :
    WP (writeThrough p content.inits) s (fun _ t => Calm s t ∧ t.fs.disk = s.fs.disk.write p content) (fun _ => False) := by
  obtain ⟨l, hl⟩ := exists_inits content
  refine ((writeThrough_calm hp content.inits s).and ?_).mono (fun _ _ h => h) fun _ h => h.2
  rw [hl]
  exact writeThrough_disk p content l s

/-! ## One attempt -/

/-- `file_path_` is set. -/
def atPath (p : Path) (s : World) : World := { s with fs := { s.fs with filePath := p } }

/-- What `writeTmp` does: it stops before the rename, or the temporary file is
complete. -/
theorem writeTmp_wp (fault : PieceFault) {name : Name} (content : List Byte) {s : World}
    (hn : IsTmp (s.fs.filePath ++ [name])) :
    WP (writeTmp fault name content) s
      (fun r t => Calm (atPath (s.fs.filePath ++ [name]) s) t ∧
        ((∃ e, r = some e ∧ e ≠ 0 ∧ (fault ≠ .none ∨ s.fs.filePath ∉ s.fs.disk.dirs)) ∨
          (r = none ∧ fault ≠ .openFile ∧ (∀ n, fault ≠ .write n) ∧ s.fs.filePath ∈ s.fs.disk.dirs ∧
            t.fs.disk = s.fs.disk.write (s.fs.filePath ++ [name]) content)))
      (fun _ => False) := by
  have hh : ¬ IsHead (s.fs.filePath ++ [name]) := not_isHead_of_isTmp hn
  refine .bind (.get (.bind (.modify ?_)))
  rw [List.dropLast_concat]
  split
  · rename_i h
    refine .pure ⟨refl_of Calm _, .inl ⟨1, rfl, by decide, h.imp_left fun e => ?_⟩⟩
    rw [e]
    decide
  · rename_i h
    obtain ⟨h₁, h₂⟩ := not_or.mp h
    have hw : ∀ c : List Byte, WP (writeThrough (s.fs.filePath ++ [name]) c.inits) (atPath (s.fs.filePath ++ [name]) s)
        (fun _ t => Calm (atPath (s.fs.filePath ++ [name]) s) t ∧
          t.fs.disk = s.fs.disk.write (s.fs.filePath ++ [name]) c) (fun _ => False) := fun c => writeThrough_wp hh c _
    split
    · exact .seq (hw _) fun _ t ht => .pure ⟨ht.1, .inl ⟨2, rfl, by decide, .inl nofun⟩⟩
    · rename_i hf
      exact .seq (hw _) fun _ t ht => .pure ⟨ht.1, .inr ⟨rfl, h₁, hf, not_not.mp h₂, ht.2⟩⟩

/-- Nothing has been put in place. -/
structure Still (s t : PieceWorld ρ κ) : Prop where
  base : Calm s.base t.base
  own : t.own = s.own
  placed : t.placed = s.placed
  pushed : t.pushed = s.pushed

theorem Still.trans {s t u : PieceWorld ρ κ} (h : Still s t) (h' : Still t u) : Still s u :=
  ⟨h.base.trans h'.base, h'.own.trans h.own, h'.placed.trans h.placed, h'.pushed.trans h.pushed⟩

/-- Code of the base class that is calm puts nothing in place. -/
theorem onBase_still {α : Type} {m : Prog World α} {P : α → World → Prop} {s : PieceWorld ρ κ}
    (h : WP m s.base (fun a b => Calm s.base b ∧ P a b) fun _ => False) :
    WP (onBase m) s (fun a t => Still s t ∧ P a t.base) (fun _ => False) :=
  onBase_wp (h.mono (fun _ _ hb => ⟨⟨hb.1, rfl, rfl, rfl⟩, hb.2⟩) fun _ h => h)

/-- The file at `target` has been put in place, perhaps a head piece. -/
structure Moved (note : Option κ) (target : Path) (content : List Byte) (s t : PieceWorld ρ κ) : Prop where
  rest : offRemoval t.base = offRemoval s.base
  dirs : t.base.fs.disk.dirs = s.base.fs.disk.dirs
  read : t.base.fs.disk.read target = some content
  heads : ∀ f ∈ t.base.fs.disk.files, IsHead f.1 → f = (target, content) ∨ f ∈ s.base.fs.disk.files
  history : ∃ l, t.base.fs.history = s.base.fs.history ++ (l ++ [t.base.fs.disk]) ∧ ∀ d ∈ l, HeadsKept s.base.fs.disk d
  own : t.own = s.own
  placed : t.placed = s.placed ++ [⟨note, target, content, t.base.fs.history.length - 1⟩]
  pushed : t.pushed = s.pushed

/-- A file that is no head piece has been put in place. -/
structure Arrived (note : Option κ) (target : Path) (content : List Byte) (s t : PieceWorld ρ κ) : Prop where
  base : Calm s.base t.base
  own : t.own = s.own
  placed : t.placed = s.placed ++ [⟨note, target, content, t.base.fs.history.length - 1⟩]
  pushed : t.pushed = s.pushed

theorem Moved.arrived {note : Option κ} {target : Path} {content : List Byte} {s t : PieceWorld ρ κ}
    (h : Moved note target content s t) (hh : ¬ IsHead target) : Arrived note target content s t := by
  have hk : HeadsKept s.base.fs.disk t.base.fs.disk := by
    intro f hf hf'
    rcases h.heads f hf hf' with rfl | hm
    · exact absurd hf' hh
    · exact hm
  obtain ⟨l, hl, hd⟩ := h.history
  refine ⟨⟨h.rest, h.dirs, hk, _, hl, fun d hm => ?_⟩, h.own, h.placed, h.pushed⟩
  rcases List.mem_append.mp hm with hm | hm
  · exact hd d hm
  · rw [List.mem_singleton.mp hm]
    exact hk

/-- Files have been removed, and nothing else has happened. -/
structure Cleared (s t : PieceWorld ρ κ) : Prop where
  still : Still s t
  files : ∀ f ∈ t.base.fs.disk.files, f ∈ s.base.fs.disk.files

theorem Cleared.refl (s : PieceWorld ρ κ) : Cleared s s := ⟨⟨refl_of Calm _, rfl, rfl, rfl⟩, fun _ h => h⟩

theorem removed_cleared (p : Path) (s : PieceWorld ρ κ) :
    WP (onBase (diskOp (·.remove p))) s
      (fun _ t => Cleared s t ∧ ∀ q, q ≠ p → t.base.fs.disk.read q = s.base.fs.disk.read q) (fun _ => False) := by
  refine onBase_wp (.modify ⟨⟨⟨⟨rfl, rfl, headsKept_remove _ _, [_], rfl, fun d hm => ?_⟩, rfl, rfl, rfl⟩,
    fun f hf => Tree.mem_files_remove hf⟩, fun q hq => Tree.read_remove hq⟩)
  rw [List.mem_singleton.mp hm]
  exact headsKept_remove _ _

/-- The complete temporary file is moved. -/
theorem renamed_moved {note : κ} {source target : Path} {content : List Byte} {s t : PieceWorld ρ κ} (hc : Cleared s t)
    (hr : t.base.fs.disk.read source = some content) :
    WP (do
        onBase (diskOp (·.rename source target))
        record (some note) target
        pure none : Prog (PieceWorld ρ κ) (Option Int)) t
      (fun r u => r = none ∧ Moved (some note) target content s u) (fun _ => False) := by
  have ht := hc.still
  obtain ⟨l, hl, hd⟩ := ht.base.history
  have hread : (t.base.fs.disk.rename source target).read target = some content := Tree.read_rename hr
  refine .bind (onBase_wp (.modify (.bind (.modify (.pure ⟨rfl, ?_⟩)))))
  refine ⟨ht.base.rest, (Tree.dirs_rename _ _ _).trans ht.base.dirs, hread, fun f h _ => ?_, ⟨l, ?_, hd⟩, ht.own, ?_, ht.pushed⟩
  · exact (Tree.mem_files_rename hr h).imp_right (hc.files f)
  · show t.base.fs.history ++ [_] = _
    rw [hl, List.append_assoc]
  · show t.placed ++ [(⟨some note, target, ((t.base.fs.disk.rename source target).read target).getD [], _⟩ : Placed κ)] = _
    rw [ht.placed, hread]
    rfl

theorem moveIntoPlace_wp {note : κ} {source target : Path} {content : List Byte} {s : PieceWorld ρ κ} (fault : PieceFault)
    (hr : s.base.fs.disk.read source = some content) (hne : source ≠ target) :
    WP (moveIntoPlace note source target fault) s
      (fun r t => (∃ removed code, fault = .rename removed code ∧ r = some code.val ∧ Still s t) ∨
        ((∀ removed code, fault ≠ .rename removed code) ∧ r = none ∧ Moved (some note) target content s t))
      (fun _ => False) := by
  have hm : WP (do
        let s ← Prog.get
        if s.base.fs.disk.has target then onBase (diskOp (·.remove target))
        onBase (diskOp (·.rename source target))
        record (some note) target
        pure none : Prog (PieceWorld ρ κ) (Option Int)) s
      (fun r t => r = none ∧ Moved (some note) target content s t) (fun _ => False) := by
    refine .bind (.get ?_)
    split
    · exact .seq (removed_cleared target s) fun _ t ht => renamed_moved ht.1 ((ht.2 source hne).trans hr)
    · exact renamed_moved (.refl s) hr
  cases fault with
  | rename removed code =>
    have hp : ∀ t : PieceWorld ρ κ, Still s t → WP (pure (some code.val) : Prog (PieceWorld ρ κ) (Option Int)) t
        (fun r t => (∃ removed' code', PieceFault.rename removed code = .rename removed' code' ∧ r = some code'.val ∧ Still s t) ∨
          ((∀ removed' code', PieceFault.rename removed code ≠ .rename removed' code') ∧ r = none ∧
            Moved (some note) target content s t)) (fun _ => False) := fun t ht => .pure (.inl ⟨removed, code, rfl, rfl, ht⟩)
    rw [moveIntoPlace]
    split
    · exact .seq (removed_cleared target s) fun _ t ht => hp t ht.1.still
    · exact hp s (Cleared.refl s).still
  | none => exact hm.mono (fun _ _ h => .inr ⟨nofun, h⟩) fun _ h => h
  | openFile => exact hm.mono (fun _ _ h => .inr ⟨nofun, h⟩) fun _ h => h
  | write n => exact hm.mono (fun _ _ h => .inr ⟨nofun, h⟩) fun _ h => h

/-- Nothing has been put in place, and only the file at `p` has changed. -/
structure Touched (p : Path) (s t : PieceWorld ρ κ) : Prop where
  still : Still s t
  elsewhere : ∀ q, q ≠ p → t.base.fs.disk.read q = s.base.fs.disk.read q

/-- A file that is no head piece is copied. -/
theorem copyIntoPlace_wp (source : Path) {target : Path} (fault : Option CopyFault) (hh : ¬ IsHead target)
    (s : PieceWorld ρ κ) :
    WP (copyIntoPlace source target fault) s
      (fun r t => (∀ q, q ≠ target → t.base.fs.disk.read q = s.base.fs.disk.read q) ∧
        ((∃ f, fault = some f ∧ r = some f.code.val ∧ Still s t) ∨
          (fault = none ∧ r = none ∧ Arrived none target ((s.base.fs.disk.read source).getD []) s t)))
      (fun _ => False) := by
  have hs : Touched target s s := ⟨(Cleared.refl s).still, fun _ _ => rfl⟩
  have hremove : WP (onBase (diskOp (·.remove target))) s (fun _ t => Touched target s t) (fun _ => False) :=
    (removed_cleared target s).mono (fun _ _ h => ⟨h.1.still, h.2⟩) fun _ h => h
  have hwrite : ∀ (c : List Byte) (t : PieceWorld ρ κ), Touched target s t → WP (onBase (writeThrough target c.inits)) t
      (fun _ u => Touched target s u ∧ u.base.fs.disk = t.base.fs.disk.write target c) (fun _ => False) := by
    intro c t ht
    refine (onBase_still (P := fun _ b => b.fs.disk = t.base.fs.disk.write target c) (writeThrough_wp hh c t.base)).mono
      (fun _ u hu => ⟨⟨ht.still.trans hu.1, fun q hq => ?_⟩, hu.2⟩) fun _ h => h
    rw [hu.2, Tree.read_write_of_ne hq, ht.elsewhere q hq]
  cases fault with
  | none =>
    have hcopy : ∀ t : PieceWorld ρ κ, Touched target s t → WP (do
        onBase (writeThrough target ((s.base.fs.disk.read source).getD []).inits)
        record none target
        pure none : Prog (PieceWorld ρ κ) (Option Int)) t
        (fun r u => r = none ∧ (∀ q, q ≠ target → u.base.fs.disk.read q = s.base.fs.disk.read q) ∧
          Arrived none target ((s.base.fs.disk.read source).getD []) s u) (fun _ => False) := by
      intro t ht
      refine .seq (hwrite _ t ht) fun _ u hu => .bind (.modify (.pure ⟨rfl, hu.1.elsewhere, ?_⟩))
      refine ⟨hu.1.still.base, hu.1.still.own, ?_, hu.1.still.pushed⟩
      show u.placed ++ [(⟨none, target, (u.base.fs.disk.read target).getD [], _⟩ : Placed κ)] = _
      rw [hu.1.still.placed, hu.2, Tree.read_write, Option.getD_some]
    refine WP.mono (Q := fun r t => r = none ∧ (∀ q, q ≠ target → t.base.fs.disk.read q = s.base.fs.disk.read q) ∧
      Arrived none target ((s.base.fs.disk.read source).getD []) s t) (I := fun _ => False)
      (.bind (.get ?_)) (fun _ _ h => ⟨h.2.1, .inr ⟨rfl, h.1, h.2.2⟩⟩) fun _ h => h
    split
    · exact .seq hremove fun _ t ht => hcopy t ht
    · exact hcopy s hs
  | some f =>
    have hthrow : ∀ t : PieceWorld ρ κ, Touched target s t →
        WP (pure (some f.code.val) : Prog (PieceWorld ρ κ) (Option Int)) t
          (fun r t => (∀ q, q ≠ target → t.base.fs.disk.read q = s.base.fs.disk.read q) ∧
            ((∃ f', some f = some f' ∧ r = some f'.code.val ∧ Still s t) ∨
              (some f = none ∧ r = none ∧ Arrived none target ((s.base.fs.disk.read source).getD []) s t)))
          (fun _ => False) := fun t ht => .pure ⟨ht.elsewhere, .inl ⟨f, rfl, rfl, ht.still⟩⟩
    obtain ⟨removed, copied, code⟩ := f
    cases removed with
    | true =>
      refine .bind (.get (.seq hremove fun _ t ht => ?_))
      cases copied with
      | none => exact hthrow t ht
      | some n => exact .seq (hwrite _ t ht) fun _ u hu => hthrow u hu.1
    | false =>
      refine .bind (.get ?_)
      cases copied with
      | none => exact hthrow s hs
      | some n => exact .seq (hwrite _ s hs) fun _ u hu => hthrow u hu.1

/-- The state of an attempt that has left `p` in `file_path_`. -/
def tried (p : Path) (s : PieceWorld ρ κ) : PieceWorld ρ κ :=
  { s with base := { s.base with fs := { s.base.fs with filePath := p, attempts := s.base.fs.attempts + 1 } } }

/-- The attempt made next fails. -/
def AttemptFails (env : PieceEnv) (s : PieceWorld ρ κ) : Prop :=
  env.pieceFaults s.base.fs.attempts ≠ .none ∨ s.base.fs.filePath ∉ s.base.fs.disk.dirs

theorem Calm.filePath {s t : World} (h : Calm s t) : t.fs.filePath = s.fs.filePath :=
  congrArg (·.fs.filePath) h.rest

theorem Calm.atPath {s t : World} (h : Calm s t) (p : Path) : Calm (atPath p s) (atPath p t) :=
  ⟨show offRemoval (Cutter.atPath p t) = offRemoval (Cutter.atPath p s) from
    congrArg (Cutter.atPath p) h.rest, h.dirs, h.heads, h.history⟩

/-- The state with `p` in `file_path_`. -/
def onPath (p : Path) (s : PieceWorld ρ κ) : PieceWorld ρ κ := { s with base := atPath p s.base }

theorem onPath_still {q : Path} {s t : PieceWorld ρ κ} (h : Still (tried q s) t) (p : Path) : Still (tried p s) (onPath p t) :=
  ⟨h.base.atPath p, h.own, h.placed, h.pushed⟩

theorem Still.arrived {note : Option κ} {target : Path} {content : List Byte} {s t u : PieceWorld ρ κ} (h : Still s t)
    (h' : Arrived note target content t u) : Arrived note target content s u :=
  ⟨h.base.trans h'.base, h'.own.trans h.own, by rw [h'.placed, h.placed], h'.pushed.trans h.pushed⟩

theorem Still.moved {note : Option κ} {target : Path} {content : List Byte} {s t u : PieceWorld ρ κ} (h : Still s t)
    (h' : Moved note target content t u) : Moved note target content s u := by
  obtain ⟨l, hl, hd⟩ := h.base.history
  obtain ⟨l', hl', hd'⟩ := h'.history
  refine ⟨h'.rest.trans h.base.rest, h'.dirs.trans h.base.dirs, h'.read, fun f hf hh => ?_, ⟨l ++ l', ?_, fun d hm => ?_⟩,
    h'.own.trans h.own, by rw [h'.placed, h.placed], h'.pushed.trans h.pushed⟩
  · exact (h'.heads f hf hh).imp_right fun hm => h.base.heads f hm hh
  · rw [hl', hl, List.append_assoc, List.append_assoc]
  · rcases List.mem_append.mp hm with hm | hm
    · exact hd d hm
    · exact h.base.heads.trans (hd' d hm)

/-- How an attempt can end. -/
inductive AttemptOutcome (env : PieceEnv) (ext : Name) (note : κ) (content : List Byte) (e : Int) (s : PieceWorld ρ κ) :
    AttemptEnd → PieceWorld ρ κ → Prop
  | broke {e' : Int} {t : PieceWorld ρ κ} : e' ≠ 0 → AttemptFails env s →
    Still (tried (pieceTmp s.base.fs.filePath s.base.w.currentPieceId ext) s) t →
    AttemptOutcome env ext note content e s ⟨true, e'⟩ t
  | thrown {e' : Int} {t : PieceWorld ρ κ} : e' ≠ 0 → AttemptFails env s →
    Still (tried (pieceFile s.base.fs.filePath s.base.w.currentPieceId ext) s) t →
    AttemptOutcome env ext note content e s ⟨false, e'⟩ t
  | done {t : PieceWorld ρ κ} : ¬ AttemptFails env s →
    Arrived (some note) (pieceFile s.base.fs.filePath s.base.w.currentPieceId ext) content
      (tried (pieceFile s.base.fs.filePath s.base.w.currentPieceId ext) s) t →
    AttemptOutcome env ext note content e s ⟨false, e⟩ t

/-- The temporary file is complete, or the attempt is over. -/
theorem nextTmp_wp {α : Type} (env : PieceEnv) (ext : Name) (content : List Byte) (s : PieceWorld ρ κ)
    {k : PieceFault × Option CopyFault → Option Int → Prog (PieceWorld ρ κ) α} {Q : α → PieceWorld ρ κ → Prop}
    (hbroke : ∀ e t, e ≠ 0 → AttemptFails env s →
      Still (tried (pieceTmp s.base.fs.filePath s.base.w.currentPieceId ext) s) t →
      WP (k (env.pieceFaults s.base.fs.attempts, env.copyFaults s.base.fs.attempts) (some e)) t Q fun _ => False)
    (hnone : ∀ t, s.base.fs.filePath ∈ s.base.fs.disk.dirs →
      env.pieceFaults s.base.fs.attempts ≠ .openFile → (∀ n, env.pieceFaults s.base.fs.attempts ≠ .write n) →
      Still (tried (pieceTmp s.base.fs.filePath s.base.w.currentPieceId ext) s) t →
      t.base.fs.disk.read (pieceTmp s.base.fs.filePath s.base.w.currentPieceId ext) = some content →
      WP (k (env.pieceFaults s.base.fs.attempts, env.copyFaults s.base.fs.attempts) none) t Q fun _ => False) :
    WP (do
        let fault ← onBase (nextFault env)
        let s ← Prog.get
        let r ← onBase (writeTmp fault.1 (tmpName s.base.w.currentPieceId ext) content)
        k fault r) s Q fun _ => False := by
  refine .bind (onBase_wp (.bind (.get (.bind (.modify (.pure (.bind (.get ?_))))))))
  have hw := writeTmp_wp (env.pieceFaults s.base.fs.attempts) content (s := (tried s.base.fs.filePath s).base)
    (isTmp_pieceTmp s.base.fs.filePath s.base.w.currentPieceId ext)
  refine .bind (onBase_wp (hw.mono (fun r b hb => ?_) fun _ h => h))
  obtain ⟨hb, ⟨e, rfl, he, hf⟩ | ⟨rfl, h₁, h₂, h₃, h₄⟩⟩ := hb
  · exact hbroke e _ he hf ⟨hb, rfl, rfl, rfl⟩
  · refine hnone _ h₃ h₁ h₂ ⟨hb, rfl, rfl, rfl⟩ ?_
    show b.fs.disk.read _ = _
    rw [h₄]
    exact Tree.read_write _ _ _

theorem attemptPiece_outcome (env : PieceEnv) {ext : Name} (hx : PieceExtension ext) (note : κ) (content : List Byte)
    (e : Int) (s : PieceWorld ρ κ) :
    WP (attemptPiece env ext note content e) s (AttemptOutcome env ext note content e s) (fun _ => False) := by
  refine nextTmp_wp env ext content s (fun e' t he hf ht => .pure (.broke he hf ht)) fun t hd h₁ h₂ ht hr => ?_
  have hp : t.base.fs.filePath = pieceTmp s.base.fs.filePath s.base.w.currentPieceId ext := ht.base.filePath
  refine .bind (.get (.bind (onBase_wp (.modify ?_))))
  rw [hp, replaceExtension_tmp]
  have hs := onPath_still ht (pieceFile s.base.fs.filePath s.base.w.currentPieceId ext)
  have hne : pieceTmp s.base.fs.filePath s.base.w.currentPieceId ext ≠
      pieceFile s.base.fs.filePath s.base.w.currentPieceId ext :=
    (ne_of_isTmp (isTmp_pieceTmp _ _ _) (not_isTmp_pieceFile hx _ _)).symm
  refine .seq (moveIntoPlace_wp (env.pieceFaults s.base.fs.attempts) hr hne) fun r u hu => ?_
  rcases hu with ⟨removed, code, hf, rfl, hu⟩ | ⟨hf, rfl, hu⟩
  · refine .pure (.thrown code.property (.inl ?_) (hs.trans hu))
    rw [hf]
    exact nofun
  · refine .pure (.done ?_ (hs.arrived (hu.arrived (not_isHead_pieceFile hx _ _))))
    rintro (h | h)
    · cases hc : env.pieceFaults s.base.fs.attempts with
      | none => exact h hc
      | openFile => exact h₁ hc
      | write n => exact h₂ n hc
      | rename removed code => exact hf removed code hc
    · exact h hd

/-! ## One attempt at a head piece -/

/-- How an attempt at a head piece can end. Before the second copy throws, the
head piece itself is in place. -/
inductive HeadOutcome (env : PieceEnv) (note : κ) (content : List Byte) (e : Int) (s : PieceWorld ρ κ) :
    AttemptEnd → PieceWorld ρ κ → Prop
  | failed {broke : Bool} {e' : Int} {p : Path} {t : PieceWorld ρ κ} : e' ≠ 0 → Still (tried p s) t →
    HeadOutcome env note content e s ⟨broke, e'⟩ t
  | halfway {e' : Int} {p q : Path} {t u : PieceWorld ρ κ} : e' ≠ 0 →
    Moved (some note) (headFile s.base.fs.filePath s.base.w.currentPieceId) content (tried p s) t →
    Still (onPath q t) u → HeadOutcome env note content e s ⟨false, e'⟩ u
  | done {p : Path} {t u : PieceWorld ρ κ} : ¬ AttemptFails env s →
    Moved (some note) (headFile s.base.fs.filePath s.base.w.currentPieceId) content (tried p s) t →
    Arrived none (pieceFile s.base.fs.filePath s.base.w.currentPieceId pieceExtension) content
      (onPath (pieceFile s.base.fs.filePath s.base.w.currentPieceId pieceExtension) t) u →
    HeadOutcome env note content e s ⟨false, e⟩ u

theorem attemptHead_outcome (env : PieceEnv) (note : κ) (content : List Byte) (e : Int) (s : PieceWorld ρ κ) :
    WP (attemptHead env note content e) s (HeadOutcome env note content e s) (fun _ => False) := by
  refine nextTmp_wp env pieceExtension content s (fun e' t he _ ht => .pure (.failed he ht)) fun t hd h₁ h₂ ht hr => ?_
  have hp : t.base.fs.filePath = pieceTmp s.base.fs.filePath s.base.w.currentPieceId pieceExtension := ht.base.filePath
  have hhead : replaceExtension (pieceTmp s.base.fs.filePath s.base.w.currentPieceId pieceExtension) headExtension =
      headFile s.base.fs.filePath s.base.w.currentPieceId := replaceExtension_pieceTmp _ _ _ _
  have hs := onPath_still ht (headFile s.base.fs.filePath s.base.w.currentPieceId)
  have hne : pieceTmp s.base.fs.filePath s.base.w.currentPieceId pieceExtension ≠
      headFile s.base.fs.filePath s.base.w.currentPieceId :=
    (ne_of_isTmp (isTmp_pieceTmp _ _ _) (not_isTmp_headFile _ _)).symm
  refine .bind (.get (.bind (onBase_wp (.modify ?_))))
  rw [hp, hhead]
  refine .seq (moveIntoPlace_wp (env.pieceFaults s.base.fs.attempts) hr hne) fun r u hu => ?_
  rcases hu with ⟨removed, code, hf, rfl, hu⟩ | ⟨hf, rfl, hu⟩
  · exact .pure (.failed code.property (hs.trans hu))
  · have hm := hs.moved hu
    refine .bind (onBase_wp (.modify ?_))
    rw [replaceExtension_head]
    refine .seq (copyIntoPlace_wp _ (env.copyFaults s.base.fs.attempts) (not_isHead_pieceFile (.inl rfl) _ _) _) ?_
    rintro r v ⟨-, ⟨f, hf', rfl, hv⟩ | ⟨hf', rfl, hv⟩⟩
    · exact .pure (.halfway f.code.property hm hv)
    · have hc : (u.base.fs.disk.read (headFile s.base.fs.filePath s.base.w.currentPieceId)).getD [] = content := by
        rw [hu.read, Option.getD_some]
      have hv' : Arrived none (pieceFile s.base.fs.filePath s.base.w.currentPieceId pieceExtension) content
          (onPath (pieceFile s.base.fs.filePath s.base.w.currentPieceId pieceExtension) u) v := by
        rw [← hc]
        exact hv
      refine .pure (.done ?_ hm hv')
      rintro (h | h)
      · cases hc : env.pieceFaults s.base.fs.attempts with
        | none => exact h hc
        | openFile => exact h₁ hc
        | write n => exact h₂ n hc
        | rename removed code => exact hf removed code hc
      · exact h hd

/-! ## The loops around the attempts -/

section
variable {env : PieceEnv} {attempt : Int → Prog (PieceWorld ρ κ) AttemptEnd} {len : Nat}

/-- What is done between two attempts. -/
theorem retry_wp {leaves : Bool} {fuel : Nat} {e : Int} {n : Nat} {Q J : PieceWorld ρ κ → Prop} {s : PieceWorld ρ κ}
    (h : ∀ (n : Nat) (t : PieceWorld ρ κ), Still s t →
      WP (retryLoop env leaves attempt len fuel e n) t (fun _ u => Q u) J)
    (hJ : ∀ t, Still s t → J t) :
    WP (if n < u32 (2 * len) then do
        onBase (decreasePiece env.toEnv len)
        retryLoop env leaves attempt len fuel e (u32 (n + len))
      else retryLoop env leaves attempt len fuel e n) s (fun _ u => Q u) J := by
  split
  · refine .bind (onBase_wp ((decreasePiece_moves (calm_removal env.toEnv) len s.base).mono (fun _ b hb => ?_) fun _ hb => ?_))
    · exact h _ _ ⟨hb, rfl, rfl, rfl⟩
    · exact hJ _ ⟨hb, rfl, rfl, rfl⟩
  · exact h _ _ (Cleared.refl s).still

/-- What every attempt keeps, the loop keeps. -/
theorem retryLoop_keeps {leaves : Bool} {K : PieceWorld ρ κ → Prop}
    (hK : ∀ (e : Int) (s : PieceWorld ρ κ), K s → WP (attempt e) s (fun _ t => K t) fun _ => False)
    (hs : ∀ {s t : PieceWorld ρ κ}, K s → Still s t → K t) :
    ∀ (fuel : Nat) (e : Int) (n : Nat) {s : PieceWorld ρ κ}, K s →
      WP (retryLoop env leaves attempt len fuel e n) s (fun _ t => K t) K
  | 0, _, _, _, h => .running h
  | fuel + 1, e, n, s, h => by
    refine .seq ((hK e s h).mono (fun _ _ h => h) fun _ h => h.elim) fun r t ht => ?_
    split
    · exact .pure ht
    · split
      · exact retry_wp (fun n u hu => retryLoop_keeps hK hs fuel _ n (hs ht hu)) fun u hu => hs ht hu
      · exact .pure ht

/-- The loop after its first attempt: it is over, or the attempt has brought
about what the later ones keep. -/
theorem retryLoop_first {leaves : Bool} {G K : PieceWorld ρ κ → Prop} {s : PieceWorld ρ κ}
    (h₀ : WP (attempt 0) s (fun r t => (r.broke = false ∧ r.errorValue = 0 ∧ G t) ∨ K t) fun _ => False)
    (hK : ∀ (e : Int) (s : PieceWorld ρ κ), K s → WP (attempt e) s (fun _ t => K t) fun _ => False)
    (hs : ∀ {s t : PieceWorld ρ κ}, K s → Still s t → K t) (fuel n : Nat) :
    WP (retryLoop env leaves attempt len fuel 0 n) s (fun _ t => G t ∨ K t) fun t => t = s ∨ K t := by
  cases fuel with
  | zero => exact .running (.inl rfl)
  | succ fuel =>
    refine .seq (h₀.mono (fun _ _ h => h) fun _ h => h.elim) fun r t ht => ?_
    rcases ht with ⟨hb, he, hg⟩ | ht
    · rw [if_neg (by simp [hb]), if_neg (not_not.mpr he)]
      exact .pure (.inl hg)
    · split
      · exact .pure (.inr ht)
      · split
        · refine (retry_wp (Q := K) (J := K) (fun n u hu => ?_) fun u hu => hs ht hu).mono (fun _ _ h => .inr h) fun _ h => .inr h
          exact retryLoop_keeps hK hs fuel _ n (hs ht hu)
        · exact .pure (.inr ht)

/-- Once `error_value` is set, the loop of `HandleWritePiece` does not end. -/
theorem retryLoop_set (h : ∀ (e : Int) (s : PieceWorld ρ κ), e ≠ 0 →
      WP (attempt e) s (fun r _ => r.errorValue ≠ 0) fun _ => False) :
    ∀ (fuel : Nat) {e : Int} (n : Nat) (s : PieceWorld ρ κ), e ≠ 0 →
      WP (retryLoop env false attempt len fuel e n) s (fun _ _ => False) fun _ => True
  | 0, _, _, _, _ => .running trivial
  | fuel + 1, e, n, s, he => by
    refine .seq ((h e s he).mono (fun _ _ h => h) fun _ h => h.elim) fun r t hr => ?_
    rw [if_neg (by simp), if_pos hr]
    exact retry_wp (fun n u _ => retryLoop_set h fuel n u hr) fun _ _ => trivial

/-- The loop of `HandleWritePiece` returns only if its first attempt succeeds. -/
theorem retryLoop_stays {G : PieceWorld ρ κ → Prop} {s : PieceWorld ρ κ} (h : ∀ (e : Int) (s : PieceWorld ρ κ), e ≠ 0 →
      WP (attempt e) s (fun r _ => r.errorValue ≠ 0) fun _ => False)
    (h₀ : WP (attempt 0) s (fun r t => r.errorValue ≠ 0 ∨ G t) fun _ => False) (fuel n : Nat) :
    WP (retryLoop env false attempt len fuel 0 n) s (fun _ t => G t) fun _ => True := by
  cases fuel with
  | zero => exact .running trivial
  | succ fuel =>
    refine .seq (h₀.mono (fun _ _ h => h) fun _ h => h.elim) fun r t hr => ?_
    rw [if_neg (by simp)]
    by_cases hz : r.errorValue = 0
    · rw [if_neg (not_not.mpr hz)]
      exact .pure (hr.resolve_left (not_not.mpr hz))
    · rw [if_pos hz]
      refine (retry_wp (Q := fun _ => False) (J := fun _ => True) (fun n u _ => ?_) fun _ _ => trivial).mono
        (fun _ _ h => h.elim) fun _ h => h
      exact retryLoop_set h fuel n u hz

end

theorem attemptPiece_set (env : PieceEnv) {ext : Name} (hx : PieceExtension ext) (note : κ) (content : List Byte)
    (e : Int) (s : PieceWorld ρ κ) (he : e ≠ 0) :
    WP (attemptPiece env ext note content e) s (fun r _ => r.errorValue ≠ 0) fun _ => False := by
  refine (attemptPiece_outcome env hx note content e s).mono (fun r t h => ?_) fun _ h => h
  cases h with
  | broke h => exact h
  | thrown h => exact h
  | done _ _ => exact he

theorem attemptHead_set (env : PieceEnv) (note : κ) (content : List Byte) (e : Int) (s : PieceWorld ρ κ) (he : e ≠ 0) :
    WP (attemptHead env note content e) s (fun r _ => r.errorValue ≠ 0) fun _ => False := by
  refine (attemptHead_outcome env note content e s).mono (fun r t h => ?_) fun _ h => h
  cases h with
  | failed h => exact h
  | halfway h => exact h
  | done _ _ => exact he

/-- The loop around the attempts at a head piece returns with the head piece and
its copy in place. -/
theorem retryLoop_head (env : PieceEnv) (note : κ) (content : List Byte) (len fuel : Nat) (s : PieceWorld ρ κ) :
    WP (retryLoop env false (attemptHead env note content) len fuel 0 0) s
      (fun _ u => ∃ p t, ¬ AttemptFails env s ∧
        Moved (some note) (headFile s.base.fs.filePath s.base.w.currentPieceId) content (tried p s) t ∧
        Arrived none (pieceFile s.base.fs.filePath s.base.w.currentPieceId pieceExtension) content
          (onPath (pieceFile s.base.fs.filePath s.base.w.currentPieceId pieceExtension) t) u) fun _ => True := by
  refine retryLoop_stays (attemptHead_set env note content) ?_ fuel 0
  refine (attemptHead_outcome env note content 0 s).mono (fun r t h => ?_) fun _ h => h
  cases h with
  | failed he => exact .inl he
  | halfway he => exact .inl he
  | done hf hm hc => exact .inr ⟨_, _, hf, hm, hc⟩

/-- Attempts have been made and have perhaps left files behind; the fields of
the writer, the directories and the entries stay. -/
structure Strayed (s t : PieceWorld ρ κ) : Prop where
  w : t.base.w = s.base.w
  reads : t.base.reads = s.base.reads
  dirs : t.base.fs.disk.dirs = s.base.fs.disk.dirs
  own : t.own = s.own
  pushed : t.pushed = s.pushed
  attempts : s.base.fs.attempts ≤ t.base.fs.attempts
  placed : ∃ ps, t.placed = s.placed ++ ps ∧ ∀ p ∈ ps, ¬ IsTmp p.path

theorem Strayed.trans {s t u : PieceWorld ρ κ} (h : Strayed s t) (h' : Strayed t u) : Strayed s u := by
  obtain ⟨ps, hp, hn⟩ := h.placed
  obtain ⟨ps', hp', hn'⟩ := h'.placed
  refine ⟨h'.w.trans h.w, h'.reads.trans h.reads, h'.dirs.trans h.dirs, h'.own.trans h.own, h'.pushed.trans h.pushed,
    h.attempts.trans h'.attempts, ps ++ ps', by rw [hp', hp, List.append_assoc], fun p hm => ?_⟩
  rcases List.mem_append.mp hm with hm | hm
  · exact hn p hm
  · exact hn' p hm

theorem Calm.strayed {s t : World} (h : Calm s t) :
    t.w = s.w ∧ t.reads = s.reads ∧ t.fs.attempts = s.fs.attempts :=
  ⟨congrArg (·.w) h.rest, congrArg (·.reads) h.rest, congrArg (·.fs.attempts) h.rest⟩

theorem Still.strayed {s t : PieceWorld ρ κ} (h : Still s t) : Strayed s t := by
  obtain ⟨hw, hr, ha⟩ := h.base.strayed
  exact ⟨hw, hr, h.base.dirs, h.own, h.pushed, ha.ge, [], by rw [h.placed, List.append_nil], fun _ h => by cases h⟩

theorem tried_strayed (p : Path) (s : PieceWorld ρ κ) : Strayed s (tried p s) :=
  ⟨rfl, rfl, rfl, rfl, rfl, Nat.le_succ _, [], (List.append_nil _).symm, fun _ h => by cases h⟩

theorem Arrived.strayed {note : Option κ} {target : Path} {content : List Byte} {s t : PieceWorld ρ κ}
    (h : Arrived note target content s t) (ht : ¬ IsTmp target) : Strayed s t := by
  obtain ⟨hw, hr, ha⟩ := h.base.strayed
  refine ⟨hw, hr, h.base.dirs, h.own, h.pushed, ha.ge, _, h.placed, fun p hm => ?_⟩
  rw [List.mem_singleton.mp hm]
  exact ht

theorem AttemptOutcome.strayed {env : PieceEnv} {ext : Name} {note : κ} {content : List Byte} {e : Int}
    {s t : PieceWorld ρ κ} {r : AttemptEnd} (hx : PieceExtension ext) (h : AttemptOutcome env ext note content e s r t) :
    Strayed s t ∧ s.base.fs.attempts < t.base.fs.attempts := by
  have ha : ∀ {p : Path}, Strayed (tried p s) t → s.base.fs.attempts < t.base.fs.attempts := fun h => h.attempts
  cases h with
  | broke _ _ h => exact ⟨(tried_strayed _ s).trans h.strayed, ha h.strayed⟩
  | thrown _ _ h => exact ⟨(tried_strayed _ s).trans h.strayed, ha h.strayed⟩
  | done _ h =>
    have hs := h.strayed (not_isTmp_pieceFile hx _ _)
    exact ⟨(tried_strayed _ s).trans hs, ha hs⟩

theorem Moved.strayed {note : Option κ} {target : Path} {content : List Byte} {s t : PieceWorld ρ κ}
    (h : Moved note target content s t) (ht : ¬ IsTmp target) : Strayed s t := by
  refine ⟨congrArg (·.w) h.rest, congrArg (·.reads) h.rest, h.dirs, h.own, h.pushed,
    (congrArg (·.fs.attempts) h.rest).ge, _, h.placed, fun p hm => ?_⟩
  rw [List.mem_singleton.mp hm]
  exact ht

@[simp] theorem onPath_placed (p : Path) (s : PieceWorld ρ κ) : (onPath p s).placed = s.placed := rfl

theorem onPath_strayed (p : Path) (s : PieceWorld ρ κ) : Strayed s (onPath p s) :=
  ⟨rfl, rfl, rfl, rfl, rfl, Nat.le_refl _, [], (List.append_nil _).symm, fun _ h => by cases h⟩

theorem HeadOutcome.strayed {env : PieceEnv} {note : κ} {content : List Byte} {e : Int} {s t : PieceWorld ρ κ}
    {r : AttemptEnd} (h : HeadOutcome env note content e s r t) : Strayed s t := by
  cases h with
  | failed _ h => exact (tried_strayed _ s).trans h.strayed
  | halfway _ hm h =>
    exact (((tried_strayed _ s).trans (hm.strayed (not_isTmp_headFile _ _))).trans (onPath_strayed _ _)).trans h.strayed
  | done _ hm h =>
    exact (((tried_strayed _ s).trans (hm.strayed (not_isTmp_headFile _ _))).trans (onPath_strayed _ _)).trans
      (h.strayed (not_isTmp_pieceFile (.inl rfl) _ _))

/-- An attempt at a head piece puts in place what it is given, and copies. -/
theorem HeadOutcome.notes {env : PieceEnv} {note : κ} {content : List Byte} {e : Int} {s t : PieceWorld ρ κ}
    {r : AttemptEnd} (h : HeadOutcome env note content e s r t) :
    ∃ ps, t.placed = s.placed ++ ps ∧ ∀ p ∈ ps, p.note = some note ∨ p.note = none := by
  cases h with
  | failed _ h => exact ⟨[], h.placed.trans (List.append_nil _).symm, fun _ h => by cases h⟩
  | halfway _ hm h =>
    refine ⟨_, h.placed.trans hm.placed, fun p hp => .inl ?_⟩
    rw [List.mem_singleton.mp hp]
  | done _ hm h =>
    have hp : t.placed = _ ++ _ := h.placed
    rw [onPath_placed, hm.placed, List.append_assoc] at hp
    refine ⟨_, hp, fun p hp => ?_⟩
    rcases List.mem_cons.mp hp with rfl | hp
    · exact .inl rfl
    · rw [List.mem_singleton.mp hp]
      exact .inr rfl

theorem AttemptOutcome.notes {env : PieceEnv} {ext : Name} {note : κ} {content : List Byte} {e : Int}
    {s t : PieceWorld ρ κ} {r : AttemptEnd} (h : AttemptOutcome env ext note content e s r t) :
    ∃ ps, t.placed = s.placed ++ ps ∧ ∀ p ∈ ps, p.note = some note := by
  cases h with
  | broke _ _ h => exact ⟨[], h.placed.trans (List.append_nil _).symm, fun _ h => by cases h⟩
  | thrown _ _ h => exact ⟨[], h.placed.trans (List.append_nil _).symm, fun _ h => by cases h⟩
  | done _ h => exact ⟨_, h.placed, fun p hp => by rw [List.mem_singleton.mp hp]⟩

/-- A `break` leaves the name of a temporary file in `file_path_`. -/
theorem AttemptOutcome.isTmp {env : PieceEnv} {ext : Name} {note : κ} {content : List Byte} {e : Int}
    {s t : PieceWorld ρ κ} {r : AttemptEnd} (h : AttemptOutcome env ext note content e s r t) (hr : r.broke = true) :
    IsTmp t.base.fs.filePath := by
  cases h with
  | broke _ _ h => rw [h.base.filePath]; exact isTmp_pieceTmp _ _ _
  | thrown _ _ _ => cases hr
  | done _ _ => cases hr

section
variable {env : PieceEnv} {ext : Name} {note : κ} {content : List Byte} {len : Nat}

/-- Once `error_value` is set, the loop of `WriteOneSpecialPiece` ends with a `break`. -/
theorem retryLoop_breaks (hx : PieceExtension ext) :
    ∀ (fuel : Nat) {e : Int} (n : Nat) (s : PieceWorld ρ κ), e ≠ 0 →
      WP (retryLoop env true (attemptPiece env ext note content) len fuel e n) s
        (fun _ t => Strayed s t ∧ IsTmp t.base.fs.filePath) fun _ => True
  | 0, _, _, _, _ => .running trivial
  | fuel + 1, e, n, s, he => by
    have ho := (attemptPiece_outcome env hx note content e s).and (attemptPiece_set env hx note content e s he)
    refine .seq (ho.mono (fun _ _ h => h) fun _ h => h.1.elim) fun r t hr => ?_
    by_cases hb : r.broke = true
    · rw [if_pos (by simpa using hb)]
      exact .pure ⟨(hr.1.strayed hx).1, hr.1.isTmp hb⟩
    · rw [if_neg (by simpa using hb), if_pos hr.2]
      refine retry_wp (fun n u hu => (retryLoop_breaks hx fuel n u hr.2).mono (fun _ v hv => ⟨?_, hv.2⟩) fun _ h => h)
        fun _ _ => trivial
      exact ((hr.1.strayed hx).1.trans hu.strayed).trans hv.1

/-- The loop of `WriteOneSpecialPiece`: the first attempt succeeds, or the loop
ends with a `break`. -/
theorem retryLoop_leaves (hx : PieceExtension ext) (fuel n : Nat) (s : PieceWorld ρ κ) :
    WP (retryLoop env true (attemptPiece env ext note content) len fuel 0 n) s
      (fun _ t => (¬ AttemptFails env s ∧ Arrived (some note) (pieceFile s.base.fs.filePath s.base.w.currentPieceId ext)
          content (tried (pieceFile s.base.fs.filePath s.base.w.currentPieceId ext) s) t) ∨
        (AttemptFails env s ∧ Strayed s t ∧ s.base.fs.attempts < t.base.fs.attempts ∧ IsTmp t.base.fs.filePath))
      fun _ => True := by
  cases fuel with
  | zero => exact .running trivial
  | succ fuel =>
    refine .seq ((attemptPiece_outcome env hx note content 0 s).mono (fun _ _ h => h) fun _ h => h.elim) fun r t hr => ?_
    obtain ⟨hs, ha⟩ := hr.strayed hx
    cases hr with
    | broke he hf ht =>
      rw [if_pos (by simp)]
      refine .pure (.inr ⟨hf, hs, ha, ?_⟩)
      rw [ht.base.filePath]
      exact isTmp_pieceTmp _ _ _
    | thrown he hf ht =>
      rw [if_neg (by simp), if_pos he]
      refine retry_wp (fun n u hu => (retryLoop_breaks hx fuel n u he).mono (fun _ v hv => .inr ⟨hf, ?_, ?_, hv.2⟩)
        fun _ h => h) fun _ _ => trivial
      · exact (hs.trans hu.strayed).trans hv.1
      · exact ha.trans_le (hu.strayed.attempts.trans hv.1.attempts)
    | done hf ht =>
      rw [if_neg (by simp), if_neg (by simp)]
      exact .pure (.inl ⟨hf, ht⟩)

end

/-- What a special piece does to the writer: the next slot is the one behind it. -/
theorem writeSpecial_w (env : PieceEnv) {ext : Name} (hx : PieceExtension ext) (note : κ) (content : List Byte)
    (len fuel : Nat) (s : PieceWorld ρ κ) :
    WP (writeSpecial env fuel ext note content len) s
      (fun _ t => t.base.w = { s.base.w with currentPieceId := u32 (s.base.w.currentPieceId + s.base.w.pieceScale) } ∧
        t.own = s.own) fun _ => True := by
  refine .bind (.get (.seq (retryLoop_leaves hx fuel _ s) fun _ t ht => .modify ?_))
  have hw : t.base.w = s.base.w ∧ t.own = s.own := by
    rcases ht with ⟨-, ht⟩ | ⟨-, ht, -⟩
    · exact ⟨ht.base.strayed.1, ht.own⟩
    · exact ⟨ht.w, ht.own⟩
  exact ⟨by rw [hw.1], hw.2⟩

/-- What a data piece does to the writer. -/
theorem writeData_w (env : PieceEnv) {ext : Name} (hx : PieceExtension ext) (note : κ) (content : List Byte)
    (len fuel : Nat) (s : PieceWorld ρ κ) :
    WP (writeData env fuel ext note content len) s
      (fun _ t => t.base.w = { s.base.w with currentPieceId := u32 (s.base.w.currentPieceId + s.base.w.pieceScale) } ∧
        t.own = s.own) fun _ => True := by
  refine .seq (retryLoop_stays (G := fun t => t.base.w = s.base.w ∧ t.own = s.own) (attemptPiece_set env hx note content)
    ?_ fuel 0) fun _ t ht => .modify ⟨by rw [ht.1], ht.2⟩
  refine (attemptPiece_outcome env hx note content 0 s).mono (fun r t h => .inr ?_) fun _ h => h
  have hs := (h.strayed hx).1
  exact ⟨hs.w, hs.own⟩

end XH.Proof.Cutter
