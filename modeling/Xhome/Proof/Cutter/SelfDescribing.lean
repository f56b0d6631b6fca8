import Xhome.Proof.Cutter.PieceHeader
import Xhome.Proof.Cutter.PplPieces

/-!
# PPL files describe themselves

`Life` are the disks that runs of the writer leave, each run interrupted anywhere
and the next one started on what is there. Every file put in place has the
content that one of the three routines has written, or is a copy of a head piece
of this run or an earlier one (`life_accountedFor`): head pieces appear on the disk
only by a rename, complete. Therefore a file describes itself exactly if what was
written fits (`pieces_describe_themselves`).
-/

namespace XH.Proof.Cutter

open XH.Impl.Cutter

/-! ## Runs one after another -/

/-- What was in place when the disk had its `i`-th state. -/
def placedBy (i : Nat) (ps : List (Placed PplNote)) : List (Placed PplNote) := ps.filter (·.since ≤ i)

/-- The disks that runs in the directory `dir` can leave, one after another and each
interrupted anywhere, with the files put in place so far. The first run finds no
head pieces. -/
inductive Life (dir : Path) : List (Placed PplNote) → Tree → Prop
  | fresh {d : Tree} : (∀ f ∈ d.files, f.1.dropLast = dir → ¬ IsHead f.1) → Life dir [] d
  | run {ps : List (Placed PplNote)} {d d' : Tree} {env : PieceEnv} {fuel : Nat} {u : Uninit} {lastSeek : Nat}
    {parent : Path} {guid : Name} {scale life headLife report : Nat} {t : PplWorld} {i : Nat} : Life dir ps d →
    parent ++ [guid] = dir →
    Visited (pplRun env fuel (pplConstruct u lastSeek parent guid scale life headLife report d)) (pplProg env) t →
    t.base.fs.history[i]? = some d' → Life dir (ps ++ placedBy i t.placed) d'

/-- One of `qs` is a head piece with the content `c`. -/
def HeadAmong (qs : List (Placed PplNote)) (c : List Byte) : Prop :=
  ∃ q ∈ qs, ∃ n headerPiece, q.note = some n ∧ n.kind = .head headerPiece ∧ q.content = c

/-- The head pieces in `dir` are among `qs`. -/
def HeadsFrom (dir : Path) (qs : List (Placed PplNote)) (d : Tree) : Prop :=
  ∀ f ∈ d.files, IsHead f.1 → f.1.dropLast = dir → (∃ id, f.1 = headFile dir id) ∧ HeadAmong qs f.2

/-- The file has the content that was to be written, or that of a head piece. -/
def AccountedFor (qs : List (Placed PplNote)) (p : Placed PplNote) : Prop :=
  match p.note with
  | some n => Assigned n ∧ p.content = n.content
  | none => HeadAmong qs p.content

variable {dir : Path} {ps qs qs' : List (Placed PplNote)} {p : Placed PplNote} {s t : PplWorld} {d d' : Tree}

theorem HeadAmong.mono {c : List Byte} (h : HeadAmong qs c) (hq : ∀ q ∈ qs, q ∈ qs') : HeadAmong qs' c := by
  obtain ⟨q, hm, h⟩ := h
  exact ⟨q, hq q hm, h⟩

theorem HeadsFrom.mono (h : HeadsFrom dir qs d) (hq : ∀ q ∈ qs, q ∈ qs') : HeadsFrom dir qs' d := fun f hf hh hd =>
  (h f hf hh hd).imp_right fun h => h.mono hq

theorem HeadsFrom.kept (h : HeadsFrom dir qs d) (hk : HeadsKept d d') : HeadsFrom dir qs d' := fun f hf hh hd =>
  h f (hk f hf hh) hh hd

theorem AccountedFor.mono (h : AccountedFor qs p) (hq : ∀ q ∈ qs, q ∈ qs') : AccountedFor qs' p := by
  unfold AccountedFor at *
  split
  · rename_i hn
    rw [hn] at h
    exact h
  · rename_i hn
    rw [hn] at h
    exact h.mono hq

theorem mem_append_mono {l : List (Placed PplNote)} (hq : ∀ q ∈ qs, q ∈ qs') : ∀ q ∈ l ++ qs, q ∈ l ++ qs' := by
  intro q hm
  rcases List.mem_append.mp hm with hm | hm
  · exact List.mem_append_left _ hm
  · exact List.mem_append_right _ (hq q hm)

theorem mem_placedBy {i j : Nat} (hij : i ≤ j) {q : Placed PplNote} (h : q ∈ placedBy i qs) : q ∈ placedBy j (qs ++ qs') := by
  obtain ⟨hm, hs⟩ := List.mem_filter.mp h
  exact List.mem_filter.mpr ⟨List.mem_append_left _ hm, by simp only [decide_eq_true_eq] at hs ⊢; omega⟩

/-! ## What a run keeps -/

/-- The files put in place in this run are accounted for by those before, `ps` from
earlier runs included, and so are the head pieces on every disk of its history. -/
structure Tracked (dir : Path) (ps : List (Placed PplNote)) (s : PplWorld) : Prop where
  begun : 0 < s.base.fs.history.length
  since : ∀ p ∈ s.placed, p.since < s.base.fs.history.length
  placed : ∀ p ∈ s.placed, AccountedFor (ps ++ placedBy p.since s.placed) p
  disk : HeadsFrom dir (ps ++ s.placed) s.base.fs.disk
  history : ∀ i d, s.base.fs.history[i]? = some d → HeadsFrom dir (ps ++ placedBy i s.placed) d

/-- All that is in place was so when the last disk was reached. -/
theorem Tracked.placedBy_last (h : Tracked dir ps s) {i : Nat} (hi : s.base.fs.history.length ≤ i + 1) :
    ∀ q ∈ s.placed, q ∈ placedBy i s.placed := fun q hq =>
  List.mem_filter.mpr ⟨hq, by have := h.since q hq; simp only [decide_eq_true_eq]; omega⟩

/-- Disks are added to the history, and perhaps a file is put in place. -/
theorem Tracked.grow {l : List Tree} (h : Tracked dir ps s) (hh : t.base.fs.history = s.base.fs.history ++ l)
    (hp : t.placed = s.placed ++ qs) (hq : ∀ q ∈ qs, q.since + 1 = t.base.fs.history.length ∧ AccountedFor (ps ++ s.placed) q)
    (hd : HeadsFrom dir (ps ++ t.placed) t.base.fs.disk)
    (hl : ∀ i d, l[i]? = some d → HeadsFrom dir (ps ++ placedBy (s.base.fs.history.length + i) t.placed) d) :
    Tracked dir ps t := by
  have hlen : t.base.fs.history.length = s.base.fs.history.length + l.length := by rw [hh, List.length_append]
  have hb := h.begun
  refine ⟨by omega, fun p hm => ?_, fun p hm => ?_, hd, fun i d hi => ?_⟩
  · rw [hp] at hm
    rcases List.mem_append.mp hm with hm | hm
    · have := h.since p hm
      omega
    · have := (hq p hm).1
      omega
  · rw [hp] at hm ⊢
    rcases List.mem_append.mp hm with hm | hm
    · exact (h.placed p hm).mono (mem_append_mono fun q hq => mem_placedBy (Nat.le_refl _) hq)
    · refine (hq p hm).2.mono (mem_append_mono fun q hq' => mem_placedBy (Nat.le_refl _) (h.placedBy_last ?_ q hq'))
      have := (hq p hm).1
      omega
  · rw [hh] at hi
    by_cases hlt : i < s.base.fs.history.length
    · rw [List.getElem?_append_left hlt] at hi
      rw [hp]
      exact (h.history i d hi).mono (mem_append_mono fun q hq => mem_placedBy (Nat.le_refl _) hq)
    · rw [List.getElem?_append_right (Nat.le_of_not_lt hlt)] at hi
      have hle := hl _ d hi
      rwa [Nat.add_sub_cancel' (Nat.le_of_not_lt hlt)] at hle

/-- No head piece is put in place. -/
theorem Tracked.calm (h : Tracked dir ps s) (hc : Calm s.base t.base) (hp : t.placed = s.placed ++ qs)
    (hq : ∀ q ∈ qs, q.since + 1 = t.base.fs.history.length ∧ AccountedFor (ps ++ s.placed) q) : Tracked dir ps t := by
  obtain ⟨l, hh, hk⟩ := hc.history
  refine h.grow hh hp hq ?_ fun i d hi => ?_
  · rw [hp]
    exact (h.disk.kept hc.heads).mono (mem_append_mono fun q hq => List.mem_append_left _ hq)
  · rw [hp]
    refine (h.disk.kept (hk d (List.mem_of_getElem? hi))).mono (mem_append_mono fun q hq => ?_)
    exact mem_placedBy (Nat.le_refl _) (h.placedBy_last (by omega) q hq)

theorem Tracked.still (h : Tracked dir ps s) (ht : Still s t) : Tracked dir ps t :=
  h.calm ht.base (ht.placed.trans (List.append_nil _).symm) fun _ h => by cases h

/-- What was to be written, or the content of a head piece, is put in place. -/
theorem Tracked.arrived {note : Option PplNote} {target : Path} {content : List Byte} (h : Tracked dir ps s)
    (ht : Arrived note target content s t)
    (ha : ∀ since, AccountedFor (ps ++ s.placed) ⟨note, target, content, since⟩) : Tracked dir ps t := by
  apply h.calm ht.base ht.placed
  intro q hq
  rw [List.mem_singleton.mp hq]
  refine ⟨Nat.sub_add_cancel ?_, ha _⟩
  obtain ⟨l, hl, -⟩ := ht.base.history
  rw [hl, List.length_append]
  exact Nat.le_add_right_of_le h.begun

/-- A head piece is put in place. -/
theorem Tracked.moved {n : PplNote} {headerPiece : Piece} {path : Path} {id : Nat} (h : Tracked dir ps s)
    (hm : Moved (some n) (headFile path id) n.content s t) (ha : Assigned n) (hk : n.kind = .head headerPiece) :
    Tracked dir ps t := by
  obtain ⟨l, hh, hl⟩ := hm.history
  have hlen : t.base.fs.history.length = s.base.fs.history.length + l.length + 1 := by
    rw [hh, List.length_append, List.length_append, List.length_singleton, Nat.add_assoc]
  -- the disk after the rename has the new head piece, which is in place by then
  have hdisk : ∀ {i}, t.base.fs.history.length ≤ i + 1 → HeadsFrom dir (ps ++ placedBy i t.placed) t.base.fs.disk := by
    intro i hi f hf hh hd
    have hnew : (⟨some n, headFile path id, n.content, t.base.fs.history.length - 1⟩ : Placed PplNote) ∈
        placedBy i t.placed := by
      rw [hm.placed]
      refine List.mem_filter.mpr ⟨List.mem_append_right _ (List.mem_singleton_self _), ?_⟩
      simp only [decide_eq_true_eq]
      omega
    rcases hm.heads f hf hh with rfl | hf
    · refine ⟨⟨id, ?_⟩, _, List.mem_append_right _ hnew, n, headerPiece, rfl, hk, rfl⟩
      rw [← hd, headFile, List.dropLast_concat]
      rfl
    · refine (h.disk f hf hh hd).imp_right fun h' => h'.mono (mem_append_mono fun q hq => ?_)
      rw [hm.placed]
      exact mem_placedBy (Nat.le_refl _) (h.placedBy_last (by omega) q hq)
  refine h.grow hh hm.placed (fun q hq => ?_) ((hdisk (Nat.le_succ _)).mono (mem_append_mono fun q hq =>
    (List.mem_filter.mp hq).1)) fun i d hi => ?_
  · rw [List.mem_singleton.mp hq]
    exact ⟨by dsimp only; omega, ha, rfl⟩
  · by_cases hlt : i < l.length
    · rw [List.getElem?_append_left hlt] at hi
      rw [hm.placed]
      refine (h.disk.kept (hl d (List.mem_of_getElem? hi))).mono (mem_append_mono fun q hq => ?_)
      exact mem_placedBy (Nat.le_refl _) (h.placedBy_last (by omega) q hq)
    · rw [List.getElem?_append_right (Nat.le_of_not_lt hlt)] at hi
      rw [List.mem_singleton.mp (List.mem_of_getElem? hi)]
      exact hdisk (by omega)

/-- Only the history, the disk and the log of the files matter. -/
theorem Tracked.congr (h : Tracked dir ps s) (hfs : t.base.fs.history = s.base.fs.history)
    (hd : t.base.fs.disk = s.base.fs.disk) (hp : t.placed = s.placed) : Tracked dir ps t :=
  ⟨by rw [hfs]; exact h.begun, by rw [hp, hfs]; exact h.since, by rw [hp]; exact h.placed, by rw [hp, hd]; exact h.disk,
    by rw [hp, hfs]; exact h.history⟩

theorem Tracked.tried (h : Tracked dir ps s) (path : Path) : Tracked dir ps (tried path s) := h.congr rfl rfl rfl

/-! ## The three routines -/

variable {env : PieceEnv}

theorem tracked_attemptPiece {n : PplNote} (ha : Assigned n) (e : Int) (h : Tracked dir ps s) :
    WP (attemptPiece env pieceExtension n n.content e) s (fun _ t => Tracked dir ps t) fun _ => False := by
  refine (attemptPiece_outcome env (.inl rfl) n n.content e s).mono (fun r t ht => ?_) fun _ h => h
  cases ht with
  | broke _ _ ht => exact (h.tried _).still ht
  | thrown _ _ ht => exact (h.tried _).still ht
  | done _ ht => exact (h.tried _).arrived ht fun _ => ⟨ha, rfl⟩

theorem tracked_attemptHead {n : PplNote} {headerPiece : Piece} (ha : Assigned n) (hk : n.kind = .head headerPiece) (e : Int)
    (h : Tracked dir ps s) :
    WP (attemptHead env n n.content e) s (fun _ t => Tracked dir ps t) fun _ => False := by
  refine (attemptHead_outcome env n n.content e s).mono (fun r t ht => ?_) fun _ h => h
  cases ht with
  | failed _ ht => exact (h.tried _).still ht
  | @halfway _ _ q u _ _ hm ht =>
    have hu : Tracked dir ps (onPath q u) := ((h.tried _).moved hm ha hk).congr rfl rfl rfl
    exact hu.still ht
  | @done _ u _ _ hm hc =>
    have hu := (h.tried _).moved hm ha hk
    have hu' : Tracked dir ps (onPath (pieceFile s.base.fs.filePath s.base.w.currentPieceId pieceExtension) u) :=
      hu.congr rfl rfl rfl
    refine hu'.arrived hc fun _ => ⟨⟨some n, headFile s.base.fs.filePath s.base.w.currentPieceId, n.content,
      u.base.fs.history.length - 1⟩, List.mem_append_right _ ?_, n, headerPiece, rfl, hk, rfl⟩
    rw [onPath_placed, hm.placed]
    exact List.mem_append_right _ (List.mem_singleton_self _)

theorem tracked_special (n : Nat) {ty : Nat} (hty : ty ≤ 1) (h : Tracked dir ps s) :
    WP (pplWriteOneSpecialPiece env n ty) s (fun _ t => Tracked dir ps t) (Tracked dir ps) := by
  have hs : Tracked dir ps (pplSpecialStart ty s) := h.congr rfl rfl rfl
  unfold WP
  rw [pplWriteOneSpecialPiece_eq env n hty s]
  refine WP.bind (.get (.seq (retryLoop_keeps (fun e _ ht => tracked_attemptPiece (assigned_special ty s) e ht)
    (fun h ht => h.still ht) n 0 _ hs) fun _ t ht => ?_))
  exact .modify (ht.congr rfl rfl rfl)

theorem tracked_head (n : Nat) (piece : Piece) (seek : Nat) (h : Tracked dir ps s) :
    WP (writeHeadPiece env n piece seek) s (fun _ t => Tracked dir ps t) (Tracked dir ps) := by
  have hs : Tracked dir ps (pplHeadStart piece seek s) := h.congr rfl rfl rfl
  unfold WP
  rw [writeHeadPiece_eq]
  refine WP.seq (retryLoop_keeps (fun e _ ht => tracked_attemptHead (assigned_head piece seek s) rfl e ht)
    (fun h ht => h.still ht) n 0 0 hs) fun _ t ht => ?_
  exact .modify (ht.congr rfl rfl rfl)

theorem tracked_data (n : Nat) (piece : Piece) (seek : Nat) (h : Tracked dir ps s) :
    WP (writeDataPiece env n piece seek) s (fun _ t => Tracked dir ps t) (Tracked dir ps) := by
  have hs : Tracked dir ps (pplDataStart piece seek s) := h.congr rfl rfl rfl
  unfold WP
  rw [writeDataPiece_eq]
  refine WP.seq (retryLoop_keeps (fun e _ ht => tracked_attemptPiece (assigned_data piece seek s) e ht)
    (fun h ht => h.still ht) n 0 0 hs) fun _ t ht => ?_
  exact .modify (ht.congr rfl rfl rfl)

/-! ## The copies at the start -/

/-- The head pieces of `dir` named in `l` are on the disk. -/
def HeadsThere (dir : Path) (l : List (Name × List Byte)) (s : PplWorld) : Prop :=
  ∀ f ∈ l, extension f.1 = headExtension → ∃ c, s.base.fs.disk.read (dir ++ [f.1]) = some c

theorem headsThere_filesIn (dir : Path) (s : PplWorld) : HeadsThere dir (s.base.fs.disk.filesIn dir) s := by
  intro f hf _
  obtain ⟨g, hg, e⟩ := List.mem_filterMap.mp hf
  split at e
  · rename_i hd
    obtain ⟨name, hn, rfl⟩ := Option.map_eq_some_iff.mp e
    have hp : g.1 = dir ++ [name] := by
      rw [← hd]
      exact (List.dropLast_append_getLast? _ hn).symm
    rw [← hp]
    exact Tree.read_of_mem hg
  · cases e

theorem tracked_copyHeads : ∀ (l : List (Name × List Byte)) {s : PplWorld}, Tracked dir ps s → HeadsThere dir l s →
    WP (copyHeads env dir l) s (fun _ t => Tracked dir ps t) (Tracked dir ps)
  | [], _, h, _ => .pure h
  | f :: rest, s, h, hl => by
    rw [copyHeads]
    split
    · rename_i hf
      refine .bind (onBase_wp (.bind (.get (.bind (.modify (.pure ?_))))))
      obtain ⟨c, hc⟩ := hl f List.mem_cons_self hf.1
      have hh : IsHead (dir ++ [f.1]) := by
        rw [IsHead, List.getLast?_concat]
        exact hf.1
      obtain ⟨⟨id, hid⟩, hm⟩ := h.disk _ (Tree.mem_files_of_read hc) hh List.dropLast_concat
      have hid' : dir ++ [f.1] = headFile dir id := hid
      rw [hid', replaceExtension_head]
      refine .seq ((copyIntoPlace_wp _ _ (not_isHead_pieceFile (.inl rfl) _ _) _).mono (fun _ _ h => h) fun _ h => h.elim)
        fun r t ht => ?_
      have ht' : Tracked dir ps t := by
        have hs : Tracked dir ps (tried s.base.fs.filePath s) := h.tried _
        rcases ht.2 with ⟨_, -, -, ht⟩ | ⟨-, -, ht⟩
        · exact hs.still ht
        · apply hs.arrived ht
          intro _
          show HeadAmong _ ((s.base.fs.disk.read (headFile dir id)).getD [])
          rw [← hid', hc]
          exact hm
      apply tracked_copyHeads rest ht'
      intro g hg he
      obtain ⟨c', hc'⟩ := hl g (List.mem_cons_of_mem _ hg) he
      have hg' : IsHead (dir ++ [g.1]) := by
        rw [IsHead, List.getLast?_concat]
        exact he
      refine ⟨c', (ht.1 _ fun e => ?_).trans hc'⟩
      exact not_isHead_pieceFile (.inl rfl) dir id (e ▸ hg')
    · exact tracked_copyHeads rest h fun g hg he => hl g (List.mem_cons_of_mem _ hg) he

theorem tracked_rules (env : PieceEnv) (dir : Path) (ps : List (Placed PplNote)) :
    PplRunRules env dir (Tracked dir ps) (Tracked dir ps) where
  running _ h := h
  inactive h hi := h.congr (by rw [hi.fs]) (by rw [hi.fs]) hi.placed
  stat := pplSpecial_stat env
  special n _ _ hty h := tracked_special n hty h
  begin _ _ _ h := h.congr rfl rfl rfl
  expire old s h := onBase_wp ((dropExpired_moves (calm_removal env.toEnv) old _ s.base).mono
    (fun _ _ hb => h.still ⟨hb, rfl, rfl, rfl⟩) fun _ hb => h.still ⟨hb, rfl, rfl, rfl⟩)
  header _ _ h := h.congr rfl rfl rfl
  head n piece seek _ h := tracked_head n piece seek h
  data n piece seek _ h _ := tracked_data n piece seek h
  heads old s h := dropHeads_keeps (fun h hb => h.still ⟨hb, rfl, rfl, rfl⟩) (fun _ _ h => h.congr rfl rfl rfl)
    env.toEnv old _ h
  calm h hb := h.still ⟨hb, rfl, rfl, rfl⟩
  resumed _ _ h := h.congr rfl rfl rfl
  headQueue _ _ h := h.congr rfl rfl rfl
  headerId _ _ h := h.congr rfl rfl rfl
  copies s h := tracked_copyHeads _ h (headsThere_filesIn dir s)

/-! ## All runs -/

theorem tracked_visited {fuel : Nat} {u : Uninit} {lastSeek : Nat} {parent : Path} {guid : Name}
    {scale life headLife report : Nat} (hd : HeadsFrom dir ps d) (hdir : parent ++ [guid] = dir)
    (h : Visited (pplRun env fuel (pplConstruct u lastSeek parent guid scale life headLife report d)) (pplProg env) t) :
    Tracked dir ps t := by
  refine (tracked_rules env dir ps).visited (s := pplConstruct u lastSeek parent guid scale life headLife report d) hdir
    (fun _ => ⟨Nat.one_pos, fun _ h => (by cases h), fun _ h => (by cases h),
    ?_, fun i d' hi => ?_⟩) h
  · exact hd.mono fun q hq => List.mem_append_left _ hq
  · rw [List.mem_singleton.mp (List.mem_of_getElem? hi)]
    exact hd.mono fun q hq => List.mem_append_left _ hq

theorem life_accountedFor (h : Life dir ps d) : (∀ p ∈ ps, AccountedFor ps p) ∧ HeadsFrom dir ps d := by
  induction h with
  | fresh hd => exact ⟨fun _ h => (by cases h), fun f hf hh hdir => absurd hh (hd f hf hdir)⟩
  | run _ hdir hv hi ih =>
    have ht := tracked_visited ih.2 hdir hv
    refine ⟨fun p hp => ?_, ht.history _ _ hi⟩
    rcases List.mem_append.mp hp with hp | hp
    · exact (ih.1 p hp).mono fun q hq => List.mem_append_left _ hq
    · obtain ⟨hm, hs⟩ := List.mem_filter.mp hp
      refine (ht.placed p hm).mono (mem_append_mono fun q hq => ?_)
      obtain ⟨hq, hqs⟩ := List.mem_filter.mp hq
      simp only [decide_eq_true_eq] at hs hqs
      exact List.mem_filter.mpr ⟨hq, by simp only [decide_eq_true_eq]; omega⟩

/-- Every file put in place in any run, after any number of interrupted ones,
describes itself exactly if what was written fits: the ids tell what kind of piece
it is, and the lengths fit their fields. A copy is as good as the head piece. -/
theorem pieces_describe_themselves (dir : Path) (ps : List (Placed PplNote)) (d : Tree) (h : Life dir ps d)
    (p : Placed PplNote) (hp : p ∈ ps) :
    ∃ q ∈ ps, ∃ n, q.note = some n ∧ q.content = p.content ∧ (p.note ≠ none → q = p) ∧
      (p.note = none → ∃ headerPiece, n.kind = .head headerPiece) ∧ (DescribesItself n p.content ↔ HeaderSound n) := by
  have ha := (life_accountedFor h).1
  have hown : ∀ {q : Placed PplNote} {n : PplNote}, q ∈ ps → q.note = some n → (DescribesItself n q.content ↔ HeaderSound n) := by
    intro q n hq hn
    have := ha q hq
    rw [AccountedFor, hn] at this
    obtain ⟨hn, hc⟩ := this
    rw [hc]
    exact describesItself_iff hn
  cases hn : p.note with
  | some n => exact ⟨p, hp, n, hn, rfl, fun _ => rfl, nofun, hown hp hn⟩
  | none =>
    have hc := ha p hp
    rw [AccountedFor, hn] at hc
    obtain ⟨q, hq, n, headerPiece, hn', hk, hc⟩ := hc
    refine ⟨q, hq, n, hn', hc, fun h => absurd rfl h, fun _ => ⟨headerPiece, hk⟩, ?_⟩
    rw [← hc]
    exact hown hq hn'

/-! ## A head piece without its copy -/

/-- The clock stands, nothing fails, and the tag for a stream off air is empty. -/
def clockAt (now : Nat) : PieceEnv where
  utc _ := now
  faults _ := .none
  removeThrows _ := false
  removedSize _ := 0
  md5 _ := .replicate 16 0
  onairTag := some []
  pieceFaults _ := .none
  copyFaults _ := none

/-- One more run, with slots of 5 seconds, up to the disk chosen by `last`. -/
def runOn (now : Nat) (es : List PieceEvent) (last : PplWorld → Nat) (r : List (Placed PplNote) × Tree) :
    Option (List (Placed PplNote) × Tree) :=
  (pplRun (clockAt now) 9 (pplConstruct ⟨.replicate 16 0, .replicate 16 0, .replicate 338 0⟩ 0 [] ['c'] 5 1000 1000 60
      r.2)).andThen fun _ w =>
    (runHandlers (pplProg (clockAt now)) w es).bind fun t =>
      t.base.fs.history[last t]?.map fun d => (r.1 ++ placedBy (last t) t.placed, d)

theorem Life.runOn {now : Nat} {es : List PieceEvent} {last : PplWorld → Nat} {r r' : List (Placed PplNote) × Tree}
    (h : Life [['c']] r.1 r.2) (e : runOn now es last r = some r') : Life [['c']] r'.1 r'.2 := by
  obtain ⟨_, w, hw, e⟩ := Res.andThen_eq_some e
  obtain ⟨t, ht, e⟩ := Option.bind_eq_some_iff.mp e
  obtain ⟨d, hd, rfl⟩ := Option.map_eq_some_iff.mp e
  exact .run h rfl (.between ((Rested.start hw).of_runHandlers ht)) hd

/-- The first two pieces of a stream. -/
def firstPieces : List PieceEvent := [.writePiece 9 [[1, 2]] 0 0, .writePiece 9 [[3]] 0 0]

/-- The head piece of the slot 100 and its copy. -/
def oneHead : Option (List (Placed PplNote) × Tree) :=
  runOn 100 firstPieces (fun t => t.base.fs.history.length - 1) ([], ⟨[[['c']]], []⟩)

/-- A second run is interrupted when the head piece of the slot 105 is in place, but
not its copy; a third one starts at 110. -/
def headWithoutCopy : Option (List (Placed PplNote) × Tree) :=
  oneHead.bind fun r =>
    (runOn 105 firstPieces (fun t => ((t.placed.find? (·.path = headFile [['c']] 105)).map (·.since)).getD 0) r).bind
      (runOn 110 [] fun t => t.base.fs.history.length - 1)

theorem oneHead_life {r : List (Placed PplNote) × Tree} (h : oneHead = some r) : Life [['c']] r.1 r.2 :=
  Life.runOn (r := ([], ⟨[[['c']]], []⟩)) (.fresh nofun) h

/-- The special piece of the slot 105 is written under the id of the data header:
its own header has 30 bytes and says 24. -/
theorem special_piece_under_header_id :
    ∃ (ps : List (Placed PplNote)) (d : Tree) (p : Placed PplNote) (n : PplNote), Life [['c']] ps d ∧ p ∈ ps ∧
      p.note = some n ∧ n.kind = .special 0 ∧ n.header.pieceId = 105 ∧ n.header.dataHeaderPieceId = 105 ∧
      n.header.pieceHeaderLength = 24 ∧ n.header.serialize.length = 30 ∧ ¬ DescribesItself n p.content := by
  have h : (headWithoutCopy.bind fun r => r.1.getLast?.bind fun p => p.note.map fun n => decide (
      n.kind = .special 0 ∧ n.header.pieceId = 105 ∧ n.header.dataHeaderPieceId = 105 ∧
      n.header.pieceHeaderLength = 24 ∧ n.header.serialize.length = 30)) = some true := by decide +kernel
  obtain ⟨r, hr, h⟩ := Option.bind_eq_some_iff.mp h
  obtain ⟨p, hp, h⟩ := Option.bind_eq_some_iff.mp h
  obtain ⟨n, hn, e⟩ := Option.map_eq_some_iff.mp h
  obtain ⟨hk, hid, hheader, hl, hs⟩ := of_decide_eq_true e
  have hm : p ∈ r.1 := List.mem_of_getLast? hp
  have hlife : Life [['c']] r.1 r.2 := by
    obtain ⟨r₁, h₁, h⟩ := Option.bind_eq_some_iff.mp hr
    obtain ⟨r₂, h₂, h₃⟩ := Option.bind_eq_some_iff.mp h
    exact ((oneHead_life h₁).runOn h₂).runOn h₃
  refine ⟨r.1, r.2, p, n, hlife, hm, hn, hk, hid, hheader, hl, hs, fun hd => ?_⟩
  have ha := (life_accountedFor hlife).1 p hm
  rw [AccountedFor, hn] at ha
  have hsound := (describesItself_iff ha.1).mp (ha.2 ▸ hd)
  have htell := hsound.fits.1
  rw [IdsTell, hk] at htell
  exact htell (hid.trans hheader.symm)

/-- The head piece of the slot 100 describes itself. -/
theorem pieces_describe_themselves_oneHead :
    ∃ (ps : List (Placed PplNote)) (d : Tree), Life [['c']] ps d ∧
      ∃ p ∈ ps, ∃ n, p.note = some n ∧ n.kind = .head [[1, 2]] ∧ DescribesItself n p.content := by
  have h : (oneHead.bind fun r => r.1.head?.bind fun p => p.note.map fun n => decide (
      n.kind = .head [[1, 2]] ∧ LengthFits n)) = some true := by decide +kernel
  obtain ⟨r, hr, h⟩ := Option.bind_eq_some_iff.mp h
  obtain ⟨p, hp, h⟩ := Option.bind_eq_some_iff.mp h
  obtain ⟨n, hn, e⟩ := Option.map_eq_some_iff.mp h
  obtain ⟨hk, hf⟩ := of_decide_eq_true e
  have hm : p ∈ r.1 := List.mem_of_head? hp
  obtain ⟨q, -, n', hn', -, heq, -, hd⟩ := pieces_describe_themselves [['c']] r.1 r.2 (oneHead_life hr) p hm
  obtain rfl : q = p := heq (by rw [hn]; exact nofun)
  obtain rfl : n' = n := Option.some.inj (hn'.symm.trans hn)
  refine ⟨r.1, r.2, oneHead_life hr, q, hm, n', hn, hk, hd.mpr ⟨hf, fun {headerPiece} he => ?_⟩⟩
  rw [hk] at he
  cases he
  decide

end XH.Proof.Cutter
