import Mathlib.Data.List.Forall2
import Xhome.Proof.Cutter.PplPieces

/-!
# Failed writes of piece files

A call of one of the four routines that write piece files is `Clean` if it
leaves `file_path_` as it was and every entry it appends belongs to a file
renamed into place for it, of the recorded size. A call that returns is clean
exactly if no attempt it makes fails and every file has the length its header
or the writer counts (`failed_writes_iff`): the loops of `HandleWritePiece` do not
return after a failed attempt, and those of `WriteOneSpecialPiece` leave with the
name of the temporary file in the queue.
-/

namespace XH.Proof.Cutter

open XH.Impl.Cutter

variable {ρ κ : Type}

/-! ## Clean calls -/

/-- The files renamed into place; a copy of a head piece is none of them. -/
def renamed (ps : List (Placed κ)) : List (Placed κ) := ps.filter (·.note.isSome)

/-- The entry names the file and has its size. -/
def NamesFile (e : PieceFileInfo) (p : Placed κ) : Prop := p.path = e.path ∧ p.content.length = e.size

/-- The call from `s` to `t` leaves no trace of failed writes: `file_path_` is as
before, the entries appended name the files renamed into place, in order and
with their sizes, and `current_piece_id_` has moved only behind such a file. -/
structure Clean (s t : PieceWorld ρ κ) : Prop where
  filePath : t.base.fs.filePath = s.base.fs.filePath
  entries : List.Forall₂ NamesFile (t.pushed.drop s.pushed.length) (renamed (t.placed.drop s.placed.length))
  advance : t.base.w.currentPieceId ≠ s.base.w.currentPieceId →
    ∃ e ∈ t.pushed.drop s.pushed.length, ∃ p ∈ renamed (t.placed.drop s.placed.length), NamesFile e p

/-- No attempt to open, write or rename a file fails between `s` and `t`. -/
def Unfailing (env : PieceEnv) (s t : PieceWorld ρ κ) : Prop :=
  (∀ i, s.base.fs.attempts ≤ i → i < t.base.fs.attempts → env.pieceFaults i = .none) ∧
    (s.base.fs.attempts < t.base.fs.attempts → s.base.fs.filePath ∈ s.base.fs.disk.dirs)

/-- What is written between `s` and `t` fits. -/
def AllFit (fits : κ → Prop) (s t : PieceWorld ρ κ) : Prop :=
  ∀ p ∈ t.placed.drop s.placed.length, ∀ n, p.note = some n → fits n

/-! ## What a call can do -/

/-- The entry belongs to the file, which has its size if what was written fits. -/
def Belongs (fits : κ → Prop) (e : PieceFileInfo) (p : Placed κ) : Prop :=
  p.path = e.path ∧ ∃ n, p.note = some n ∧ (p.content.length = e.size ↔ fits n)

/-- Attempts, entries and files are added. -/
structure Grown (s t : PieceWorld ρ κ) (es : List PieceFileInfo) (ps : List (Placed κ)) : Prop where
  attempts : s.base.fs.attempts ≤ t.base.fs.attempts
  pushed : t.pushed = s.pushed ++ es
  placed : t.placed = s.placed ++ ps
  notTmp : ∀ p ∈ ps, ¬ IsTmp p.path

/-- All attempts have succeeded. -/
structure Tidy (fits : κ → Prop) (env : PieceEnv) (s t : PieceWorld ρ κ) (es : List PieceFileInfo)
    (ps : List (Placed κ)) : Prop extends Grown s t es ps where
  unfailing : Unfailing env s t
  filePath : t.base.fs.filePath = s.base.fs.filePath
  dirs : t.base.fs.disk.dirs = s.base.fs.disk.dirs
  belongs : List.Forall₂ (Belongs fits) es (renamed ps)

/-- An attempt has failed, and an entry names a temporary file. -/
structure Spoilt (env : PieceEnv) (s t : PieceWorld ρ κ) (es : List PieceFileInfo) (ps : List (Placed κ)) : Prop
    extends Grown s t es ps where
  failing : ∃ i, s.base.fs.attempts ≤ i ∧ i < t.base.fs.attempts ∧
    (env.pieceFaults i ≠ .none ∨ s.base.fs.filePath ∉ s.base.fs.disk.dirs)
  tmp : ∃ e ∈ es, IsTmp e.path

/-- What a part of a routine does. -/
def Does (fits : κ → Prop) (env : PieceEnv) (s t : PieceWorld ρ κ) : Prop :=
  ∃ es ps, Tidy fits env s t es ps ∨ Spoilt env s t es ps

variable {fits : κ → Prop} {env : PieceEnv} {s t u : PieceWorld ρ κ} {es es' : List PieceFileInfo}
  {ps ps' : List (Placed κ)}

theorem Grown.trans (h : Grown s t es ps) (h' : Grown t u es' ps') : Grown s u (es ++ es') (ps ++ ps') := by
  refine ⟨h.attempts.trans h'.attempts, by rw [h'.pushed, h.pushed, List.append_assoc],
    by rw [h'.placed, h.placed, List.append_assoc], fun p hp => ?_⟩
  rcases List.mem_append.mp hp with hp | hp
  · exact h.notTmp p hp
  · exact h'.notTmp p hp

theorem Tidy.trans (h : Tidy fits env s t es ps) (h' : Tidy fits env t u es' ps') :
    Tidy fits env s u (es ++ es') (ps ++ ps') := by
  refine ⟨h.toGrown.trans h'.toGrown, ⟨fun i h₁ h₂ => ?_, fun hlt => ?_⟩, h'.filePath.trans h.filePath,
    h'.dirs.trans h.dirs, ?_⟩
  · by_cases hi : i < t.base.fs.attempts
    · exact h.unfailing.1 i h₁ hi
    · exact h'.unfailing.1 i (Nat.le_of_not_lt hi) h₂
  · by_cases ht : s.base.fs.attempts < t.base.fs.attempts
    · exact h.unfailing.2 ht
    · rw [← h.filePath, ← h.dirs]
      exact h'.unfailing.2 ((Nat.le_of_not_lt ht).trans_lt hlt)
  · rw [renamed, List.filter_append]
    exact List.rel_append h.belongs h'.belongs

theorem Tidy.spoilt (h : Tidy fits env s t es ps) (h' : Spoilt env t u es' ps') :
    Spoilt env s u (es ++ es') (ps ++ ps') := by
  obtain ⟨i, h₁, h₂, hf⟩ := h'.failing
  obtain ⟨e, he, ht⟩ := h'.tmp
  refine ⟨h.toGrown.trans h'.toGrown, ⟨i, h.attempts.trans h₁, h₂, ?_⟩, e, List.mem_append_right _ he, ht⟩
  rw [← h.filePath, ← h.dirs]
  exact hf

theorem Spoilt.grown (h : Spoilt env s t es ps) (h' : Grown t u es' ps') : Spoilt env s u (es ++ es') (ps ++ ps') := by
  obtain ⟨i, h₁, h₂, hf⟩ := h.failing
  obtain ⟨e, he, ht⟩ := h.tmp
  exact ⟨h.toGrown.trans h', ⟨i, h₁, h₂.trans_le h'.attempts, hf⟩, e, List.mem_append_left _ he, ht⟩

theorem Does.trans (h : Does fits env s t) (h' : Does fits env t u) : Does fits env s u := by
  obtain ⟨es, ps, h | h⟩ := h
  · obtain ⟨es', ps', h' | h'⟩ := h'
    · exact ⟨_, _, .inl (h.trans h')⟩
    · exact ⟨_, _, .inr (h.spoilt h')⟩
  · obtain ⟨es', ps', h' | h'⟩ := h'
    · exact ⟨_, _, .inr (h.grown h'.toGrown)⟩
    · exact ⟨_, _, .inr (h.grown h'.toGrown)⟩

/-- What the writing of files is about. -/
def filesOf (s : PieceWorld ρ κ) : Path × List Path × Nat × List PieceFileInfo × List (Placed κ) :=
  (s.base.fs.filePath, s.base.fs.disk.dirs, s.base.fs.attempts, s.pushed, s.placed)

theorem Tidy.of_filesOf (h : filesOf t = filesOf s) : Tidy fits env s t [] [] := by
  have h₁ : t.base.fs.filePath = s.base.fs.filePath := congrArg (·.1) h
  have h₂ : t.base.fs.disk.dirs = s.base.fs.disk.dirs := congrArg (·.2.1) h
  have h₃ : t.base.fs.attempts = s.base.fs.attempts := congrArg (·.2.2.1) h
  have h₄ : t.pushed = s.pushed := congrArg (·.2.2.2.1) h
  have h₅ : t.placed = s.placed := congrArg (·.2.2.2.2) h
  refine ⟨⟨h₃.ge, by rw [h₄, List.append_nil], by rw [h₅, List.append_nil], fun _ h => by cases h⟩, ⟨fun i h h' => ?_,
    fun h => ?_⟩, h₁, h₂, .nil⟩
  · omega
  · omega

theorem Does.of_filesOf (h : filesOf t = filesOf s) : Does fits env s t := ⟨[], [], .inl (.of_filesOf h)⟩

/-- An entry has been appended, or the id is the same. -/
def Advances (s t : PieceWorld ρ κ) : Prop :=
  t.pushed.length = s.pushed.length → t.base.w.currentPieceId = s.base.w.currentPieceId

theorem Does.pushed_le (h : Does fits env s t) : s.pushed.length ≤ t.pushed.length := by
  obtain ⟨es, ps, h | h⟩ := h
  · rw [h.pushed, List.length_append]; omega
  · rw [h.pushed, List.length_append]; omega

/-! ## The loops -/

/-- One file has been written by a first attempt that did not fail. -/
theorem tidy_of_arrived {ext : Name} {note : κ} {content : List Byte} {len : Nat} (hx : PieceExtension ext)
    (hfit : content.length = len ↔ fits note) (hf : ¬ AttemptFails env s)
    (h : Arrived (some note) (pieceFile s.base.fs.filePath s.base.w.currentPieceId ext) content
      (tried (pieceFile s.base.fs.filePath s.base.w.currentPieceId ext) s) t) :
    WP (pushPiece len) t (fun _ u => Does fits env s u ∧ s.pushed.length < u.pushed.length) fun _ => True := by
  obtain ⟨hnone, hdir⟩ := not_or.mp hf
  have hp : t.base.fs.filePath = pieceFile s.base.fs.filePath s.base.w.currentPieceId ext := h.base.filePath
  have ha : t.base.fs.attempts = s.base.fs.attempts + 1 := h.base.strayed.2.2
  have hw : t.base.w = s.base.w := h.base.strayed.1
  have hpush : t.pushed = s.pushed := h.pushed
  have hplace : t.placed = s.placed ++ _ := h.placed
  have hdirs : t.base.fs.disk.dirs = s.base.fs.disk.dirs := h.base.dirs
  refine .modify ⟨⟨[⟨t.base.w.currentPieceId, t.base.fs.filePath, len⟩], _, .inl
    ⟨⟨?_, ?_, hplace, fun p hm => ?_⟩, ⟨fun i h₁ h₂ => ?_, fun _ => not_not.mp hdir⟩, ?_, hdirs, ?_⟩⟩, ?_⟩
  · show s.base.fs.attempts ≤ t.base.fs.attempts
    omega
  · show t.pushed ++ _ = _
    rw [hpush]
  · rw [List.mem_singleton.mp hm]
    exact not_isTmp_pieceFile hx _ _
  · have h₃ : i < t.base.fs.attempts := h₂
    have hi : i = s.base.fs.attempts := by omega
    rw [hi]
    exact not_not.mp hnone
  · show t.base.fs.filePath.dropLast = _
    rw [hp, dropLast_pieceFile]
  · exact .cons ⟨hp.symm, note, rfl, hfit⟩ .nil
  · show _ < (t.pushed ++ _).length
    rw [hpush, List.length_append]
    exact Nat.lt_succ_self _

theorem writeSpecial_does {ext : Name} {note : κ} {content : List Byte} {len : Nat} (hx : PieceExtension ext)
    (hfit : content.length = len ↔ fits note) (fuel : Nat) (s : PieceWorld ρ κ) :
    WP (writeSpecial env fuel ext note content len) s
      (fun _ u => Does fits env s u ∧ s.pushed.length < u.pushed.length) fun _ => True := by
  refine .bind (.get (.seq (retryLoop_leaves hx fuel _ s) fun _ t ht => ?_))
  rcases ht with ⟨hf, ht⟩ | ⟨hf, ht, ha, hp⟩
  · exact tidy_of_arrived hx hfit hf ht
  · obtain ⟨ps, hps, hn⟩ := ht.placed
    refine .modify ⟨⟨[⟨t.base.w.currentPieceId, t.base.fs.filePath, len⟩], ps, .inr
      ⟨⟨ha.le, ?_, hps, hn⟩, ?_, _, List.mem_singleton_self _, hp⟩⟩, ?_⟩
    · show t.pushed ++ _ = _
      rw [ht.pushed]
    · rcases hf with hf | hf
      · exact ⟨s.base.fs.attempts, Nat.le_refl _, ha, .inl hf⟩
      · exact ⟨s.base.fs.attempts, Nat.le_refl _, ha, .inr hf⟩
    · show _ < (t.pushed ++ _).length
      rw [ht.pushed, List.length_append]
      exact Nat.lt_succ_self _

theorem writeData_does {ext : Name} {note : κ} {content : List Byte} {len : Nat} (hx : PieceExtension ext)
    (hfit : content.length = len ↔ fits note) (fuel : Nat) (s : PieceWorld ρ κ) :
    WP (writeData env fuel ext note content len) s
      (fun _ u => Does fits env s u ∧ s.pushed.length < u.pushed.length) fun _ => True := by
  refine .seq (retryLoop_stays (G := fun t => ¬ AttemptFails env s ∧
      Arrived (some note) (pieceFile s.base.fs.filePath s.base.w.currentPieceId ext) content
        (tried (pieceFile s.base.fs.filePath s.base.w.currentPieceId ext) s) t)
    (attemptPiece_set env hx note content) ?_ fuel 0) fun _ t ht => tidy_of_arrived hx hfit ht.1 ht.2
  refine (attemptPiece_outcome env hx note content 0 s).mono (fun r t h => ?_) fun _ h => h
  cases h with
  | broke he => exact .inl he
  | thrown he => exact .inl he
  | done hf h => exact .inr ⟨hf, h⟩

/-! ## The routines -/

/-- What a special piece does. -/
structure SpecialDoes (fits : κ → Prop) (env : PieceEnv) (s t : PieceWorld ρ κ) : Prop where
  does : Does fits env s t
  advances : Advances s t
  w : ∃ id tag, t.base.w = { s.base.w with currentPieceId := id, checkpointTag := tag }

theorem SpecialDoes.refl (s : PieceWorld ρ κ) : SpecialDoes fits env s s :=
  ⟨.of_filesOf rfl, fun _ => rfl, s.base.w.currentPieceId, s.base.w.checkpointTag, rfl⟩

/-- A special piece that is written from a state with the header ready. -/
theorem specialDoes_of_write {ext : Name} {note : κ} {content : List Byte} {len : Nat} (hx : PieceExtension ext)
    (hfit : content.length = len ↔ fits note) (fuel : Nat) {s s' : PieceWorld ρ κ} (hf : filesOf s' = filesOf s)
    (hb : s'.base = cued s.base) :
    WP (writeSpecial env fuel ext note content len) s' (fun _ u => SpecialDoes fits env s u) fun _ => True := by
  have hw := (writeSpecial_does hx hfit fuel s').and (writeSpecial_w env hx note content len fuel s')
  refine hw.mono (fun _ u hu => ?_) fun _ _ => trivial
  obtain ⟨⟨hd, hp⟩, hu, -⟩ := hu
  have hlen : s'.pushed = s.pushed := congrArg (·.2.2.2.1) hf
  refine ⟨(Does.of_filesOf hf).trans hd, fun e => ?_, u32 (s.base.w.currentPieceId + s.base.w.pieceScale), cueTag s.base.w, ?_⟩
  · rw [hlen] at hp
    omega
  · rw [hu, hb]
    rfl

/-- What the loops over special pieces do, from `s₀` on: `C` are facts about the
header piece. -/
theorem does_rules {special : Nat → Nat → Prog (PieceWorld ρ κ) Unit} {C : Piece → Nat → Prop}
    (hs : ∀ n {ty} s, ty ≤ 1 → C s.base.w.headerPiece s.base.w.headerPieceLen →
      WP (special n ty) s (fun _ t => SpecialDoes fits env s t) fun _ => True)
    (hstat : ∀ n ty s, WP (special n ty) s (fun _ t => t.base.w.stat = s.base.w.stat) fun _ => True)
    (s₀ : PieceWorld ρ κ) :
    PieceRules env special
      (fun t => Does fits env s₀ t ∧ (s₀.base.w.currentPieceId ≠ 0 → Advances s₀ t) ∧
        C t.base.w.headerPiece t.base.w.headerPieceLen) (fun _ => True) where
  running _ _ := trivial
  stat := hstat
  inactive {s t} h hi := by
    have hf : filesOf t = filesOf s := by simp only [filesOf, hi.fs, hi.placed, hi.pushed]
    have hid : t.base.w.currentPieceId = s.base.w.currentPieceId :=
      show (offFlags t.base.w).currentPieceId = (offFlags s.base.w).currentPieceId by rw [hi.w]
    have hc : t.base.w.headerPiece = s.base.w.headerPiece ∧ t.base.w.headerPieceLen = s.base.w.headerPieceLen :=
      ⟨show (offFlags t.base.w).headerPiece = (offFlags s.base.w).headerPiece by rw [hi.w],
        show (offFlags t.base.w).headerPieceLen = (offFlags s.base.w).headerPieceLen by rw [hi.w]⟩
    refine ⟨h.1.trans (.of_filesOf hf), fun h₀ e => ?_, by rw [hc.1, hc.2]; exact h.2.2⟩
    rw [hid]
    rw [hi.pushed] at e
    exact h.2.1 h₀ e
  special n ty s hty h := by
    refine (hs n s hty h.2.2).mono (fun _ t ht => ⟨h.1.trans ht.does, fun h₀ e => ?_, ?_⟩) fun _ _ => trivial
    · have h₁ := h.1.pushed_le
      have h₂ := ht.does.pushed_le
      exact (ht.advances (by omega)).trans (h.2.1 h₀ (by omega))
    · obtain ⟨id, tag, hw⟩ := ht.w
      rw [hw]
      exact h.2.2
  begin now s hz h := by
    refine ⟨h.1.trans (.of_filesOf rfl), fun h₀ e => ?_, h.2.2⟩
    exact absurd ((h.2.1 h₀ e).symm.trans hz) h₀
  expire old s h := by
    refine onBase_wp ((dropExpired_moves (calm_removal env.toEnv) old _ s.base).mono (fun _ b hb => ?_) fun _ _ => trivial)
    obtain ⟨hw, -, ha⟩ := hb.strayed
    have hf : filesOf ({ s with base := b } : PieceWorld ρ κ) = filesOf s := by
      simp only [filesOf, hb.filePath, hb.dirs, ha]
    refine ⟨h.1.trans (.of_filesOf hf), fun h₀ e => ?_, by rw [hw]; exact h.2.2⟩
    show b.w.currentPieceId = _
    rw [hw]
    exact h.2.1 h₀ e

/-! ## The writer of PPL files -/

theorem pplSpecial_does (n : Nat) {ty : Nat} (s : PplWorld) :
    WP (pplWriteOneSpecialPiece env n ty) s (fun _ t => SpecialDoes LengthFits env s t) fun _ => True := by
  by_cases h : ty ≤ 1
  · unfold WP
    rw [pplWriteOneSpecialPiece_eq env n h s]
    exact specialDoes_of_write (.inl rfl) (pieceLength_iff (assigned_special ty s)) n rfl rfl
  · rw [pplWriteOneSpecialPiece, if_neg h]
    exact .pure (.refl s)

/-- What the loops of the writer of PPL files do. -/
theorem ppl_does_rules (s₀ : PplWorld) :
    PieceRules env (pplWriteOneSpecialPiece env)
      (fun t => Does LengthFits env s₀ t ∧ (s₀.base.w.currentPieceId ≠ 0 → Advances s₀ t) ∧ True) (fun _ => True) :=
  does_rules (C := fun _ _ => True) (fun n _ s _ _ => pplSpecial_does n s) (pplSpecial_stat env) s₀

theorem writeDataPiece_does (n : Nat) (piece : Piece) (seek : Nat) (s : PplWorld) :
    WP (writeDataPiece env n piece seek) s (fun _ t => Does LengthFits env s t ∧ s.pushed.length < t.pushed.length) fun _ => True := by
  have h₀ : Does LengthFits env s (pplDataStart piece seek s) := .of_filesOf rfl
  unfold WP
  rw [writeDataPiece_eq]
  exact (writeData_does (.inl rfl) (pieceLength_iff (assigned_data piece seek s)) n (pplDataStart piece seek s)).mono
    (fun _ _ h => ⟨h₀.trans h.1, h.2⟩) fun _ h => h

/-- The head piece and its copy are in place. -/
theorem tidy_of_head {note : PplNote} {len : Nat} {s t u : PplWorld} {p : Path}
    (hfit : note.content.length = len ↔ LengthFits note) (hf : ¬ AttemptFails env s)
    (hm : Moved (some note) (headFile s.base.fs.filePath s.base.w.currentPieceId) note.content (tried p s) t)
    (hc : Arrived none (pieceFile s.base.fs.filePath s.base.w.currentPieceId pieceExtension) note.content
      (onPath (pieceFile s.base.fs.filePath s.base.w.currentPieceId pieceExtension) t) u) :
    WP (Prog.modify (headPushed len)) u (fun _ v => Does LengthFits env s v ∧ s.pushed.length < v.pushed.length) fun _ => True := by
  obtain ⟨hnone, hdir⟩ := not_or.mp hf
  have hp : u.base.fs.filePath = pieceFile s.base.fs.filePath s.base.w.currentPieceId pieceExtension := hc.base.filePath
  have ha : u.base.fs.attempts = s.base.fs.attempts + 1 :=
    hc.base.strayed.2.2.trans (congrArg (·.fs.attempts) hm.rest)
  have hpush : u.pushed = s.pushed := hc.pushed.trans hm.pushed
  have hplace : u.placed = t.placed ++ _ := hc.placed
  rw [hm.placed, List.append_assoc] at hplace
  have hdirs : u.base.fs.disk.dirs = s.base.fs.disk.dirs := hc.base.dirs.trans hm.dirs
  refine .modify ⟨⟨[⟨u.base.w.currentPieceId, appendExtension u.base.fs.filePath headExtension, len⟩], _, .inl
    ⟨⟨?_, ?_, hplace, fun q hq => ?_⟩, ⟨fun i h₁ h₂ => ?_, fun _ => not_not.mp hdir⟩, ?_, hdirs, ?_⟩⟩, ?_⟩
  · show s.base.fs.attempts ≤ u.base.fs.attempts
    omega
  · show u.pushed ++ _ = _
    rw [hpush]
  · rcases List.mem_cons.mp hq with rfl | hq
    · exact not_isTmp_headFile _ _
    · rw [List.mem_singleton.mp hq]
      exact not_isTmp_pieceFile (.inl rfl) _ _
  · have h₃ : i < u.base.fs.attempts := h₂
    have hi : i = s.base.fs.attempts := by omega
    rw [hi]
    exact not_not.mp hnone
  · show u.base.fs.filePath.dropLast = _
    rw [hp, dropLast_pieceFile]
  · refine .cons ⟨?_, note, rfl, hfit⟩ .nil
    show _ = appendExtension u.base.fs.filePath headExtension
    rw [hp, appendExtension_piece]
  · show _ < (u.pushed ++ _).length
    rw [hpush, List.length_append]
    exact Nat.lt_succ_self _

theorem writeHeadPiece_does (n : Nat) (piece : Piece) (seek : Nat) (s : PplWorld) :
    WP (writeHeadPiece env n piece seek) s (fun _ t => Does LengthFits env s t ∧ s.pushed.length < t.pushed.length) fun _ => True := by
  let note := pplHeadNote piece seek s
  let s' := pplHeadStart piece seek s
  have h₀ : Does LengthFits env s s' := .of_filesOf rfl
  unfold WP
  rw [writeHeadPiece_eq]
  apply WP.seq (retryLoop_head env note note.content _ n s')
  intro _ u hu
  obtain ⟨p, t, hf, hm, hc⟩ := hu
  exact (tidy_of_head (pieceLength_iff (assigned_head piece seek s)) hf hm hc).mono
    (fun _ _ h => ⟨h₀.trans h.1, h.2⟩) fun _ h => h

theorem pplHandle_does (fuel : Nat) (piece : Piece) (seek mediaTs : Nat) (s : PplWorld) :
    WP (pplHandleWritePiece env fuel piece seek mediaTs) s (fun _ t => Does LengthFits env s t ∧ Advances s t) fun _ => True := by
  have hI : PieceRules env _ _ _ := ppl_does_rules s
  have hs : Does LengthFits env s s ∧ (s.base.w.currentPieceId ≠ 0 → Advances s s) ∧ True :=
    ⟨.of_filesOf rfl, fun _ _ => rfl, trivial⟩
  have hb := hI.base mediaTs hs
  have hwrite : ∀ {t u : PplWorld}, Does LengthFits env s t → Does LengthFits env t u ∧ t.pushed.length < u.pushed.length →
      Does LengthFits env s u ∧ Advances s u := fun h h' => by
    have hle := h.pushed_le
    exact ⟨h.trans h'.1, fun e => by omega⟩
  refine .bind (.of_ret (onBase_baseHandleWritePiece mediaTs s) (.bind (.get ?_)))
  split
  · exact onBase_wp (.modify ⟨.of_filesOf rfl, fun _ => rfl⟩)
  · refine .seq (hI.startSlots fuel hb) fun go t ht => ?_
    cases go with
    | true => exact (writeHeadPiece_does fuel piece seek t).mono (fun _ _ h => hwrite ht.1.1 h) fun _ h => h
    | false =>
      rw [ht.2 rfl]
      exact .pure ⟨.of_filesOf rfl, fun _ => rfl⟩
  · refine .seq (hI.checkSlot fuel hb) fun go t ht => ?_
    cases go with
    | true => exact (writeDataPiece_does fuel piece seek t).mono (fun _ _ h => hwrite ht.1.1 h) fun _ h => h
    | false =>
      rw [(ht.2.2 rfl).1]
      exact .pure ⟨.of_filesOf rfl, fun _ => rfl⟩

/-! ## The writer of FLV files -/

/-- A file is shorter than `2^32` bytes. -/
def FlvFits (n : FlvNote) : Prop := n.content.length < 2 ^ 32

/-- `header_piece_len_` is the size of the header piece. -/
def HeaderCounted (s : FlvWorld) : Prop := s.base.w.headerPieceLen = u32 (Piece.size s.base.w.headerPiece)

theorem flvPieceLength_iff {headerPiece : Piece} {len : Nat} (h : len = u32 (Piece.size headerPiece)) (cue data : Piece) :
    (FlvNote.content ⟨headerPiece, cue, data⟩).length = flvPieceLength len cue data ↔ FlvFits ⟨headerPiece, cue, data⟩ := by
  have hl : (FlvNote.content ⟨headerPiece, cue, data⟩).length =
      Piece.size headerPiece + Piece.size cue + Piece.size data := by
    rw [FlvNote.content, Piece.length_flatten, Piece.size_append, Piece.size_append]
  rw [FlvFits, flvPieceLength, h, Nat.add_assoc, u32_u32_add, ← Nat.add_assoc, hl]
  unfold u32
  omega

theorem flvSpecial_does (n : Nat) {ty : Nat} {s : FlvWorld} (h : HeaderCounted s) :
    WP (flvWriteOneSpecialPiece env n ty) s (fun _ t => SpecialDoes FlvFits env s t) fun _ => True := by
  rw [flvWriteOneSpecialPiece]
  split
  · unfold WP
    rw [Prog.bind_ret (onBase_ret (cuePoint_apply s.base)), Prog.bind_ret (Prog.get_apply _)]
    exact specialDoes_of_write (.inr rfl) (flvPieceLength_iff h (cueOf s.base.w) (offairOf s.base.w ty)) n rfl rfl
  · exact .pure (.refl s)

theorem flvSpecial_stat (n ty : Nat) (s : FlvWorld) :
    WP (flvWriteOneSpecialPiece env n ty) s (fun _ t => t.base.w.stat = s.base.w.stat) fun _ => True := by
  rw [flvWriteOneSpecialPiece]
  split
  · unfold WP
    rw [Prog.bind_ret (onBase_ret (cuePoint_apply s.base)), Prog.bind_ret (Prog.get_apply _)]
    exact (writeSpecial_w env (.inr rfl) _ _ _ n _).mono (fun _ t ht => by rw [ht.1]; rfl) fun _ h => h
  · exact .pure rfl

/-- What the loops of the writer of FLV files do. -/
theorem flv_does_rules (s₀ : FlvWorld) :
    PieceRules env (flvWriteOneSpecialPiece env)
      (fun t => Does FlvFits env s₀ t ∧ (s₀.base.w.currentPieceId ≠ 0 → Advances s₀ t) ∧ HeaderCounted t) (fun _ => True) :=
  does_rules (C := fun headerPiece len => len = u32 (Piece.size headerPiece))
    (fun n _ _ _ h => flvSpecial_does n h) flvSpecial_stat s₀

theorem flvWritePiece_does (n : Nat) (piece : Piece) {s : FlvWorld} (h : HeaderCounted s) :
    WP (flvWritePiece env n piece) s (fun _ t => Does FlvFits env s t ∧ s.pushed.length < t.pushed.length) fun _ => True := by
  have h₀ : Does FlvFits env s { s with base := cued s.base } := .of_filesOf rfl
  rw [flvWritePiece]
  unfold WP
  rw [Prog.bind_ret (onBase_ret (cuePoint_apply s.base)), Prog.bind_ret (Prog.get_apply _)]
  exact (writeData_does (.inr rfl) (flvPieceLength_iff h (cueOf s.base.w) piece) n { s with base := cued s.base }).mono
    (fun _ _ h => ⟨h₀.trans h.1, h.2⟩) fun _ h => h

/-- Between the readings that begin the slots and the next one, the clock has
gone back by more than a slot. -/
def FellBack (env : PieceEnv) (s : FlvWorld) : Prop :=
  s.base.w.stat = .secondPiece ∧ s.base.w.currentPieceId = 0 ∧
    env.utc (s.base.reads + 1) / s.base.w.pieceScale * s.base.w.pieceScale >
      u32 (env.utc (s.base.reads + 2) + s.base.w.pieceScale)

/-- `case STAT_NORMAL`: an entry is appended, or the piece comes too early. -/
theorem flvHandleNormal_does {I : FlvWorld → Prop} (hI : PieceRules env (flvWriteOneSpecialPiece env) I fun _ => True)
    {s₀ : FlvWorld} (hdoes : ∀ t, I t → Does FlvFits env s₀ t ∧ HeaderCounted t) (fuel : Nat) (piece : Piece)
    {s : FlvWorld} (hs : I s) :
    WP (flvHandleNormal env fuel piece) s
      (fun _ t => (Does FlvFits env s₀ t ∧ s₀.pushed.length < t.pushed.length) ∨
        (t = clockRead s ∧ s.base.w.currentPieceId > u32 (env.utc s.base.reads + s.base.w.pieceScale))) fun _ => True := by
  refine .seq (hI.checkSlot fuel hs) fun go t ht => ?_
  cases go with
  | true =>
    obtain ⟨hd, hc⟩ := hdoes t ht.1
    have hle := hd.pushed_le
    exact (flvWritePiece_does fuel piece hc).mono (fun _ _ h => .inl ⟨hd.trans h.1, by omega⟩) fun _ h => h
  | false => exact .pure (.inr (ht.2.2 rfl))

/-- What a call of `HandleWritePiece` does. -/
structure HandleDoes (env : PieceEnv) (s t : FlvWorld) : Prop where
  does : Does FlvFits env s t
  advances : ¬ FellBack env s → Advances s t
  back : FellBack env s → t.pushed.length = s.pushed.length ∧ t.base.w.currentPieceId ≠ s.base.w.currentPieceId

theorem flvHandle_does (fuel : Nat) (piece : Piece) (mediaTs : Nat) {s : FlvWorld} (hc : HeaderCounted s) :
    WP (flvHandleWritePiece env fuel piece mediaTs) s (fun _ t => HandleDoes env s t) fun _ => True := by
  have hI : PieceRules env _ _ _ := flv_does_rules s
  have hs : Does FlvFits env s s ∧ (s.base.w.currentPieceId ≠ 0 → Advances s s) ∧ HeaderCounted s :=
    ⟨.of_filesOf rfl, fun _ _ => rfl, hc⟩
  have hb := hI.base mediaTs hs
  have hdoes : ∀ t : FlvWorld, Does FlvFits env s t ∧ (s.base.w.currentPieceId ≠ 0 → Advances s t) ∧ HeaderCounted t →
      Does FlvFits env s t ∧ HeaderCounted t := fun t h => ⟨h.1, h.2.2⟩
  refine .bind (.of_ret (onBase_baseHandleWritePiece mediaTs s) (.bind (.get ?_)))
  split
  · rename_i hstat
    exact onBase_wp (.modify ⟨.of_filesOf rfl, fun _ _ => rfl, fun h => absurd (hstat.symm.trans h.1) (by decide)⟩)
  · rename_i hstat
    by_cases hz : s.base.w.currentPieceId = 0
    · refine .bind (.of_ret (startSlots_zero env _ fuel (s := { s with base := afterBase mediaTs s.base }) hz) ?_)
      let v : FlvWorld := normalEntered (slotBegun (env.utc (s.base.reads + 1))
        (clockRead (clockRead { s with base := afterBase mediaTs s.base })))
      refine .bind (onBase_wp (.modify (show WP (flvHandleNormal env fuel piece) v _ _ from ?_)))
      by_cases hback : FellBack env s
      · refine .bind (.of_ret (checkSlot_early env _ fuel (s := v) hback.2.2) (.pure ?_))
        refine ⟨.of_filesOf rfl, fun h => absurd hback h, fun _ => ⟨rfl, ?_⟩⟩
        rw [hz]
        exact Nat.ne_of_gt (Nat.zero_lt_of_lt hback.2.2)
      · have hv : Does FlvFits env s v ∧ (s.base.w.currentPieceId ≠ 0 → Advances s v) ∧ HeaderCounted v :=
          ⟨.of_filesOf rfl, fun h => absurd hz h, hc⟩
        refine (flvHandleNormal_does hI hdoes fuel piece hv).mono (fun _ t ht => ?_) fun _ h => h
        rcases ht with ht | ⟨-, ht⟩
        · exact ⟨ht.1, fun _ e => by omega, fun h => absurd h hback⟩
        · exact absurd ⟨hstat, hz, ht⟩ hback
    · have hback : ¬ FellBack env s := fun h => hz h.2.1
      refine .seq (hI.startSlots fuel hb) fun go t ht => ?_
      cases go with
      | false =>
        rw [ht.2 rfl]
        exact .pure ⟨.of_filesOf rfl, fun _ _ => rfl, fun h => absurd h hback⟩
      | true =>
        obtain ⟨hd, ha, ht⟩ := ht.1
        refine .bind (onBase_wp (.modify (show WP (flvHandleNormal env fuel piece) (normalEntered t) _ _ from ?_)))
        have hv : Does FlvFits env s (normalEntered t) ∧
            (s.base.w.currentPieceId ≠ 0 → Advances s (normalEntered t)) ∧ HeaderCounted (normalEntered t) :=
          ⟨hd.trans (.of_filesOf rfl), ha, ht⟩
        refine (flvHandleNormal_does hI hdoes fuel piece hv).mono (fun _ u hu => ?_) fun _ h => h
        rcases hu with hu | ⟨rfl, -⟩
        · exact ⟨hu.1, fun _ e => by omega, fun h => absurd h hback⟩
        · exact ⟨hd.trans (.of_filesOf rfl), fun _ => ha hz, fun h => absurd h hback⟩
  · rename_i hstat
    have hback : ¬ FellBack env s := fun h => absurd (hstat.symm.trans h.1) (by decide)
    refine (flvHandleNormal_does hI hdoes fuel piece hb).mono (fun _ t ht => ?_) fun _ h => h
    rcases ht with ht | ⟨rfl, -⟩
    · exact ⟨ht.1, fun _ e => by omega, fun h => absurd h hback⟩
    · exact ⟨.of_filesOf rfl, fun _ _ => rfl, fun h => absurd h hback⟩

/-! ## Failed writes and their traces -/

theorem mem_both {α β : Type} {R S : α → β → Prop} {l : List α} {m : List β} (h : List.Forall₂ R l m)
    (h' : List.Forall₂ S l m) : ∀ b ∈ m, ∃ a ∈ l, R a b ∧ S a b := by
  induction h with
  | nil => intro b hb; cases hb
  | cons hr _ ih =>
    cases h' with
    | cons hs h' =>
      intro b hb
      rcases List.mem_cons.mp hb with rfl | hb
      · exact ⟨_, List.mem_cons_self, hr, hs⟩
      · obtain ⟨a, ha, h⟩ := ih h' b hb
        exact ⟨a, List.mem_cons_of_mem _ ha, h⟩

theorem mem_renamed {p : Placed κ} : p ∈ renamed ps ↔ p ∈ ps ∧ ∃ n, p.note = some n := by
  rw [renamed, List.mem_filter, Option.isSome_iff_exists]

/-- Files that fit have the sizes of their entries. -/
theorem names_of_belongs (h : List.Forall₂ (Belongs fits) es (renamed ps)) (hf : ∀ p ∈ ps, ∀ n, p.note = some n → fits n) :
    List.Forall₂ NamesFile es (renamed ps) := by
  have hm : ∀ p ∈ renamed ps, ∀ n, p.note = some n → fits n := fun p hp n hn => hf p (mem_renamed.mp hp).1 n hn
  generalize renamed ps = qs at h hm
  induction h with
  | nil => exact .nil
  | cons hb _ ih =>
    obtain ⟨hpath, n, hn, hsize⟩ := hb
    exact .cons ⟨hpath, hsize.mpr (hm _ List.mem_cons_self n hn)⟩ (ih fun p hp => hm p (List.mem_cons_of_mem _ hp))

/-- Nothing is left of failed writes exactly if none failed and all sizes fit. -/
theorem clean_iff (h : Does fits env s t) (ha : Advances s t) : Clean s t ↔ Unfailing env s t ∧ AllFit fits s t := by
  obtain ⟨es, ps, h | h⟩ := h
  · have hes : t.pushed.drop s.pushed.length = es := by rw [h.pushed, List.drop_left]
    have hps : t.placed.drop s.placed.length = ps := by rw [h.placed, List.drop_left]
    constructor
    · intro hc
      refine ⟨h.unfailing, fun p hp n hn => ?_⟩
      have he := hc.entries
      rw [hes, hps] at he
      rw [hps] at hp
      obtain ⟨e, -, hb, hsize⟩ := mem_both h.belongs he p (mem_renamed.mpr ⟨hp, n, hn⟩)
      obtain ⟨-, n', hn', hfit⟩ := hb
      cases hn.symm.trans hn'
      exact hfit.mp hsize.2
    · rintro ⟨-, hf⟩
      rw [AllFit, hps] at hf
      have hn := names_of_belongs h.belongs hf
      refine ⟨h.filePath, by rw [hes, hps]; exact hn, fun hid => ?_⟩
      rw [hes, hps]
      have hne : es ≠ [] := fun e => hid (ha (by rw [h.pushed, e, List.append_nil]))
      obtain ⟨e, es', rfl⟩ := List.exists_cons_of_ne_nil hne
      obtain ⟨p, hp, hnames⟩ := mem_both hn.flip hn.flip e List.mem_cons_self
      exact ⟨e, List.mem_cons_self, p, hp, hnames.1⟩
  · have hes : t.pushed.drop s.pushed.length = es := by rw [h.pushed, List.drop_left]
    have hps : t.placed.drop s.placed.length = ps := by rw [h.placed, List.drop_left]
    constructor
    · intro hc
      obtain ⟨e, he, htmp⟩ := h.tmp
      have hn := hc.entries
      rw [hes, hps] at hn
      obtain ⟨p, hp, hnames⟩ := mem_both hn.flip hn.flip e he
      refine absurd ?_ (h.notTmp p (mem_renamed.mp hp).1)
      rw [hnames.1.1]
      exact htmp
    · rintro ⟨⟨hi, hd⟩, -⟩
      obtain ⟨i, h₁, h₂, hf⟩ := h.failing
      rcases hf with hf | hf
      · exact absurd (hi i h₁ h₂) hf
      · exact absurd (hd (h₁.trans_lt h₂)) hf

/-- The writer keeps the count of the header piece. -/
theorem headerCounted_rules : FlvRules env HeaderCounted fun _ => True where
  running _ _ := trivial
  stat := flvSpecial_stat
  inactive {s t} h hi :=
    show (offFlags t.base.w).headerPieceLen = u32 (Piece.size (offFlags t.base.w).headerPiece) by rw [hi.w]; exact h
  special n ty s _ h := by
    refine (flvSpecial_does n h).mono (fun _ t ht => ?_) fun _ h => h
    obtain ⟨id, tag, hw⟩ := ht.w
    rw [HeaderCounted, hw]
    exact h
  begin _ _ _ h := h
  expire old s h := by
    refine onBase_wp ((dropExpired_moves (calm_removal env.toEnv) old _ s.base).mono (fun _ b hb => ?_) fun _ _ => trivial)
    show b.w.headerPieceLen = u32 (Piece.size b.w.headerPiece)
    rw [hb.strayed.1]
    exact h
  header _ _ _ := rfl
  enter _ h := h
  piece n piece s h := by
    rw [flvWritePiece]
    unfold WP
    rw [Prog.bind_ret (onBase_ret (cuePoint_apply s.base)), Prog.bind_ret (Prog.get_apply _)]
    refine (writeData_w env (.inr rfl) _ _ _ n _).mono (fun _ t ht => ?_) fun _ h => h
    rw [HeaderCounted, ht.1]
    exact h

theorem removeEachTmp_calm (env : Env) (dir : Path) : ∀ ns : List Name, Moves Calm (removeEachTmp env dir ns)
  | [] => .pure ()
  | _ :: ns => .ite (.bind (tryRemove_calm env _) fun _ => removeEachTmp_calm env dir ns) (removeEachTmp_calm env dir ns)

/-- The state in which `Run` looks at the directory. -/
def flvReady (env : PieceEnv) (s : FlvWorld) : FlvWorld :=
  { s with base := { ticked s.base with
      w := { s.base.w with
        offairTag := some (env.onairTag.getD offairTagData), checkpointTag := some checkPointTagData
        headerPiece := [flvHeaderData], headerPieceLen := flvHeaderData.length } } }

theorem flvRun_eq (env : PieceEnv) (s : FlvWorld) :
    flvRun env s = if s.base.fs.filePath ∈ s.base.fs.disk.dirs then
      (do
        onBase (flvScan env.toEnv s.base.fs.filePath)
        onBase (resumeSlots env.toEnv (env.utc s.base.reads)) : Prog FlvWorld Unit) (flvReady env s)
    else .ub := by
  have h : flvRun env s = (if s.base.fs.filePath ∈ s.base.fs.disk.dirs then do
        onBase (flvScan env.toEnv s.base.fs.filePath)
        onBase (resumeSlots env.toEnv (env.utc s.base.reads))
      else Prog.undefined : Prog FlvWorld Unit) (flvReady env s) := rfl
  rw [h]
  split
  · rfl
  · rfl

theorem flvHeader_counted : flvHeaderData.length = u32 (Piece.size [flvHeaderData]) := by
  have hl : flvHeaderData.length = 382 := by decide +kernel
  rw [Piece.size_cons, Piece.size_nil, Nat.add_zero, u32_of_lt (by rw [hl]; omega)]

/-- In every run `header_piece_len_` is the size of the header piece. -/
theorem flv_headerCounted {u : Uninit} {dir : Path} {guid : Name} {scale life report : Nat} {disk : Tree} {t : FlvWorld}
    (h : Rested (flvRun env (flvConstruct u dir guid scale life report disk)) (flvProg env) t) : HeaderCounted t := by
  refine h.invariant (fun _ v e => ?_) headerCounted_rules.prog
  rw [flvRun_eq] at e
  split at e
  · have hcalm : Moves Calm (flvScan env.toEnv (flvConstruct u dir guid scale life report disk).base.fs.filePath) :=
      .bind .read fun _ => .bind (removeEachTmp_calm _ _ _) fun _ => queue_calm _
    refine WP.ret (Q := fun _ v => HeaderCounted v) (I := fun _ => True) (.bind (onBase_wp ?_)) e
    refine (hcalm _).mono (fun _ b hb => onBase_wp ((resumeSlots_wp _ _ b).mono (fun _ c hc => ?_) fun _ _ => trivial)) fun _ _ => trivial
    obtain ⟨c, id, hc, rfl⟩ := hc
    show c.w.headerPieceLen = u32 (Piece.size c.w.headerPiece)
    rw [hc.strayed.1, hb.strayed.1]
    exact flvHeader_counted
  · cases e

/-- For each of the four routines: a call that returns leaves no trace of failed
writes exactly if none failed and all sizes fit; the writer of FLV files also
needs that the clock has not fallen back where it begins. -/
theorem failed_writes_iff (env : PieceEnv) (fuel : Nat) :
    (∀ (ty : Nat) (s t : PplWorld), pplWriteOneSpecialPiece env fuel ty s = .ret () t →
      (Clean s t ↔ Unfailing env s t ∧ AllFit LengthFits s t)) ∧
    (∀ (piece : Piece) (seek mediaTs : Nat) (s t : PplWorld), pplHandleWritePiece env fuel piece seek mediaTs s = .ret () t →
      (Clean s t ↔ Unfailing env s t ∧ AllFit LengthFits s t)) ∧
    (∀ (ty : Nat) (s t : FlvWorld), HeaderCounted s → flvWriteOneSpecialPiece env fuel ty s = .ret () t →
      (Clean s t ↔ Unfailing env s t ∧ AllFit FlvFits s t)) ∧
    (∀ (piece : Piece) (mediaTs : Nat) (s t : FlvWorld), HeaderCounted s →
      flvHandleWritePiece env fuel piece mediaTs s = .ret () t →
      (Clean s t ↔ Unfailing env s t ∧ AllFit FlvFits s t ∧ ¬ FellBack env s)) ∧
    (∀ (u : Uninit) (dir : Path) (guid : Name) (scale life report : Nat) (disk : Tree) (t : FlvWorld),
      Rested (flvRun env (flvConstruct u dir guid scale life report disk)) (flvProg env) t → HeaderCounted t) := by
  refine ⟨fun ty s t h => ?_, fun piece seek mediaTs s t h => ?_, fun ty s t hc h => ?_,
    fun piece mediaTs s t hc h => ?_, fun _ _ _ _ _ _ _ _ h => flv_headerCounted h⟩
  · have hd := WP.ret (pplSpecial_does fuel s) h
    exact clean_iff hd.does hd.advances
  · have hd := WP.ret (pplHandle_does fuel piece seek mediaTs s) h
    exact clean_iff hd.1 hd.2
  · have hd := WP.ret (flvSpecial_does fuel hc) h
    exact clean_iff hd.does hd.advances
  · have hd := WP.ret (flvHandle_does fuel piece mediaTs hc) h
    by_cases hback : FellBack env s
    · obtain ⟨hp, hid⟩ := hd.back hback
      refine ⟨fun hc => ?_, fun h => absurd hback h.2.2⟩
      obtain ⟨e, he, -⟩ := hc.advance hid
      rw [← hp, List.drop_length] at he
      cases he
    · rw [clean_iff hd.does (hd.advances hback), and_iff_left hback]

/-! ## A file that cannot be opened -/

/-- The clock stands at 100 when the writer starts, and at 110 afterwards. -/
def elapsed (faults : Nat → PieceFault) : PieceEnv where
  utc i := if i = 0 then 100 else 110
  faults _ := .none
  removeThrows _ := false
  removedSize _ := 0
  md5 _ := .replicate 16 0
  onairTag := none
  pieceFaults := faults
  copyFaults _ := none

/-- A directory of the channel with the piece of the slot 100. -/
def onePieceDisk : Tree := ⟨[[['c']]], [([['c'], decimal 100 ++ pieceExtension], [1])]⟩

/-- The writer on that directory, with slots of 5 seconds. -/
def onePieceWriter : PplWorld :=
  pplConstruct ⟨.replicate 16 0, .replicate 16 0, .replicate 338 0⟩ 0 [] ['c'] 5 1000 1000 60 onePieceDisk

/-- The states before and after the first piece of a stream. -/
def firstPiece (env : PieceEnv) : Option (PplWorld × PplWorld) :=
  (pplRun env 9 onePieceWriter).andThen fun _ w =>
    (runHandlers (pplProg env) w [.writePiece 9 [[1, 2]] 0 0]).bind fun s =>
      (pplHandleWritePiece env 9 [[3]] 0 0 s).returned.map fun t => (s, t)

theorem firstPiece_rested {env : PieceEnv} {s t : PplWorld} (h : firstPiece env = some (s, t)) :
    Rested (pplRun env 9 onePieceWriter) (pplProg env) s ∧ pplHandleWritePiece env 9 [[3]] 0 0 s = .ret () t := by
  obtain ⟨_, w, hw, h⟩ := Res.andThen_eq_some h
  obtain ⟨s', hs, h⟩ := Option.bind_eq_some_iff.mp h
  obtain ⟨t', ht, e⟩ := Option.map_eq_some_iff.mp h
  cases e
  obtain ⟨_, ht⟩ := Res.returned_eq_some ht
  exact ⟨(Rested.start hw).of_runHandlers hs, ht⟩

/-- The special piece of the slot 105 cannot be opened: its entry names the
temporary file, and the id moves on. -/
theorem failed_open_leaves_entry :
    ∃ s t : PplWorld,
      Rested (pplRun (elapsed fun i => if i = 0 then .openFile else .none) 9 onePieceWriter)
        (pplProg (elapsed fun i => if i = 0 then .openFile else .none)) s ∧
      pplHandleWritePiece (elapsed fun i => if i = 0 then .openFile else .none) 9 [[3]] 0 0 s = .ret () t ∧
      s.base.w.currentPieceId = 105 ∧ t.base.w.currentPieceId = 115 ∧ s.pushed = [] ∧
      t.pushed.map (·.path) = [[['c'], decimal 105 ++ pieceExtension ++ tmpExtension],
        [['c'], decimal 110 ++ pieceExtension ++ headExtension]] ∧
      s.placed.map (·.path) = [] ∧
      (renamed t.placed).map (·.path) = [[['c'], decimal 110 ++ pieceExtension ++ headExtension]] ∧ ¬ Clean s t := by
  have h : (firstPiece (elapsed fun i => if i = 0 then .openFile else .none)).map (fun r => decide (
      r.1.base.w.currentPieceId = 105 ∧ r.2.base.w.currentPieceId = 115 ∧ r.1.pushed = [] ∧
      r.2.pushed.map (·.path) = [[['c'], decimal 105 ++ pieceExtension ++ tmpExtension],
        [['c'], decimal 110 ++ pieceExtension ++ headExtension]] ∧
      r.1.placed.map (·.path) = [] ∧
      (renamed r.2.placed).map (·.path) = [[['c'], decimal 110 ++ pieceExtension ++ headExtension]])) = some true := by
    decide +kernel
  obtain ⟨⟨s, t⟩, hst, e⟩ := Option.map_eq_some_iff.mp h
  obtain ⟨hs, ht⟩ := firstPiece_rested hst
  obtain ⟨h₁, h₂, h₃, h₄, h₅, h₆⟩ := of_decide_eq_true e
  refine ⟨s, t, hs, ht, h₁, h₂, h₃, h₄, h₅, h₆, fun hc => ?_⟩
  have hl := hc.entries.length_eq
  rw [h₃, List.map_eq_nil_iff.mp h₅, List.length_nil, List.drop_zero, List.length_nil, List.drop_zero] at hl
  have hl₁ := congrArg List.length h₄
  have hl₂ := congrArg List.length h₆
  rw [List.length_map] at hl₁ hl₂
  rw [hl₁, hl₂] at hl
  exact absurd hl (by decide)

/-- Without faults the call is clean. -/
theorem failed_writes_iff_firstPiece :
    ∃ s t : PplWorld, pplHandleWritePiece (elapsed fun _ => .none) 9 [[3]] 0 0 s = .ret () t ∧
      t.base.w.currentPieceId = 115 ∧ Clean s t := by
  have h : (firstPiece (elapsed fun _ => .none)).map (fun r =>
      (r.2.base.w.currentPieceId, decide (r.1.base.fs.filePath ∈ r.1.base.fs.disk.dirs),
        (r.2.placed.drop r.1.placed.length).all fun p => p.note.all fun n => decide (LengthFits n))) =
      some (115, true, true) := by decide +kernel
  obtain ⟨⟨s, t⟩, hst, e⟩ := Option.map_eq_some_iff.mp h
  simp only [Prod.mk.injEq, decide_eq_true_eq, List.all_eq_true] at e
  obtain ⟨h₁, h₂, h₃⟩ := e
  have ht := (firstPiece_rested hst).2
  refine ⟨s, t, ht, h₁, ((failed_writes_iff _ _).2.1 _ _ _ _ _ ht).mpr ⟨⟨fun _ _ _ => rfl, fun _ => h₂⟩, fun p hp n hn => ?_⟩⟩
  have hf := h₃ p hp
  rw [hn] at hf
  exact of_decide_eq_true hf

end XH.Proof.Cutter
