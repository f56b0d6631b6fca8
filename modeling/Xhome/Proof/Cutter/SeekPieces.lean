import Xhome.Proof.Cutter.PplPieces

/-!
# Seek points of PPL pieces

A data piece should have a seek point exactly if its posted offset lies in it,
and otherwise name the latest piece before it that has one (`SeekRight`). The test
in the code subtracts the length of the data header of the latest head piece
although a data piece has none, and compares signed values. It gives the right
answer exactly if `SeekSound`, which for offsets and sizes below `2^31` means that
the offset is not within the last bytes of the piece, as many as the data header
has. This is so in all runs in which no attempt to write a file fails
(`seek_points`).
-/

namespace XH.Proof.Cutter

open XH.Impl.Cutter

/-! ## What is written before a piece -/

/-- What has been written into the files, in order. -/
def notesOf (ps : List (Placed PplNote)) : List PplNote := ps.filterMap (·.note)

/-- The latest piece with a seek point. -/
def latestSeek (ps : List (Placed PplNote)) : Option PplNote :=
  ((notesOf ps).filter fun n => n.header.hasSeekPoint = 1).getLast?

/-- The data header, in a head piece. -/
def dataHeaderOf (n : PplNote) : Option Piece :=
  match n.kind with
  | .head headerPiece => some headerPiece
  | _ => none

/-- The length of the data header in the latest head piece, in 16 bits. -/
def latestHeaderLength (ps : List (Placed PplNote)) : Nat :=
  Piece.size (((notesOf ps).filterMap dataHeaderOf).getLast?.getD []) % 2 ^ 16

/-- A data piece posted with the offset `seek` has the seek point it should have. -/
def SeekRight (pre : List (Placed PplNote)) (n : PplNote) (seek : Nat) : Prop :=
  if seek < Piece.size n.data then
    n.header.hasSeekPoint = 1 ∧ n.header.seekPoint.toNat = seek + Piece.size n.cue
  else
    n.header.hasSeekPoint = 0 ∧ ∃ m, latestSeek pre = some m ∧ n.header.seekPoint = m.header.pieceId

/-- The condition: the test finds out whether the offset lies in the piece, and
the offset behind the cue point is a 32-bit value. -/
def SeekSound (pre : List (Placed PplNote)) (n : PplNote) (seek : Nat) : Prop :=
  (seekPointInPiece seek (u32 (Piece.size n.data)) (latestHeaderLength pre) = true ↔ seek < Piece.size n.data) ∧
    (seek < Piece.size n.data → seek + Piece.size n.cue < 2 ^ 32)

/-- Below `2^31` the condition fails in the last bytes of a piece only. -/
theorem seekSound_iff {pre : List (Placed PplNote)} {n : PplNote} {seek : Nat} (h₁ : seek < 2 ^ 31)
    (h₂ : Piece.size n.data < 2 ^ 31) (h₃ : Piece.size n.cue < 2 ^ 31) :
    SeekSound pre n seek ↔ ¬ (seek < Piece.size n.data ∧ Piece.size n.data ≤ seek + latestHeaderLength pre) := by
  have hl : latestHeaderLength pre < 2 ^ 16 := Nat.mod_lt _ (by omega)
  have ht : seekPointInPiece seek (u32 (Piece.size n.data)) (latestHeaderLength pre) = true ↔
      seek + latestHeaderLength pre < Piece.size n.data := by
    rw [seekPointInPiece, decide_eq_true_eq]
    unfold i32 sub32 u32
    omega
  rw [SeekSound, ht]
  omega

variable {ps : List (Placed PplNote)} {p : Placed PplNote} {n : PplNote}

theorem notesOf_concat_some (h : p.note = some n) : notesOf (ps ++ [p]) = notesOf ps ++ [n] := by
  rw [notesOf, List.filterMap_append, List.filterMap_cons_some h, List.filterMap_nil]
  rfl

theorem notesOf_concat_none (h : p.note = none) : notesOf (ps ++ [p]) = notesOf ps := by
  rw [notesOf, List.filterMap_append, List.filterMap_cons_none h, List.filterMap_nil, List.append_nil]
  rfl

theorem latestSeek_has (h : p.note = some n) (hn : n.header.hasSeekPoint = 1) : latestSeek (ps ++ [p]) = some n := by
  rw [latestSeek, notesOf_concat_some h, List.filter_append, List.filter_cons_of_pos (by simpa using hn),
    List.filter_nil, List.getLast?_concat]

theorem latestSeek_not (h : p.note = some n) (hn : n.header.hasSeekPoint ≠ 1) :
    latestSeek (ps ++ [p]) = latestSeek ps := by
  rw [latestSeek, notesOf_concat_some h, List.filter_append, List.filter_cons_of_neg (by simpa using hn),
    List.filter_nil, List.append_nil]
  rfl

theorem latestSeek_none (h : p.note = none) : latestSeek (ps ++ [p]) = latestSeek ps := by
  rw [latestSeek, notesOf_concat_none h]
  rfl

theorem latestHeaderLength_head {headerPiece : Piece} (h : p.note = some n) (hn : n.kind = .head headerPiece) :
    latestHeaderLength (ps ++ [p]) = Piece.size headerPiece % 2 ^ 16 := by
  have hd : dataHeaderOf n = some headerPiece := by rw [dataHeaderOf, hn]
  rw [latestHeaderLength, notesOf_concat_some h, List.filterMap_append, List.filterMap_cons_some hd,
    List.filterMap_nil, List.getLast?_concat, Option.getD_some]

theorem latestHeaderLength_not (h : p.note = some n) (hn : dataHeaderOf n = none) :
    latestHeaderLength (ps ++ [p]) = latestHeaderLength ps := by
  rw [latestHeaderLength, notesOf_concat_some h, List.filterMap_append, List.filterMap_cons_none hn,
    List.filterMap_nil, List.append_nil]
  rfl

theorem latestHeaderLength_none (h : p.note = none) : latestHeaderLength (ps ++ [p]) = latestHeaderLength ps := by
  rw [latestHeaderLength, notesOf_concat_none h]
  rfl

/-! ## What the writer remembers -/

/-- The fields of the writer say what has been written. -/
structure Remembers (own : PplFields) (ps : List (Placed PplNote)) : Prop where
  seek : ∀ m, latestSeek ps = some m → m.header.pieceId = .ofNat 32 own.lastSeekPointPieceId
  header : own.pieceHeader.dataHeaderLength.toNat = latestHeaderLength ps

variable {s : PplWorld}

theorem Remembers.special (h : Remembers s.own ps) (ty : Nat) (hp : p.note = some (pplSpecialNote ty s)) :
    Remembers (pplSpecialStart ty s).own (ps ++ [p]) := by
  refine ⟨fun m hm => ?_, ?_⟩
  · rw [latestSeek_has hp rfl] at hm
    cases hm
    rfl
  · rw [latestHeaderLength_not hp rfl]
    exact h.header

theorem remembers_head (piece : Piece) (seek : Nat) (hp : p.note = some (pplHeadNote piece seek s)) :
    Remembers (pplHeadStart piece seek s).own (ps ++ [p]) := by
  refine ⟨fun m hm => ?_, ?_⟩
  · rw [latestSeek_has hp rfl] at hm
    cases hm
    rfl
  · rw [latestHeaderLength_head hp rfl]
    show (BitVec.ofNat 16 (u32 _)).toNat = _
    rw [BitVec.toNat_ofNat]
    unfold u32
    omega

theorem Remembers.copy {own : PplFields} (h : Remembers own ps) (hp : p.note = none) : Remembers own (ps ++ [p]) :=
  ⟨fun m hm => h.seek m (by rwa [latestSeek_none hp] at hm), by rw [latestHeaderLength_none hp]; exact h.header⟩

theorem Remembers.data (h : Remembers s.own ps) (piece : Piece) (seek : Nat)
    (hp : p.note = some (pplDataNote piece seek s)) : Remembers (pplDataStart piece seek s).own (ps ++ [p]) := by
  refine ⟨fun m hm => ?_, ?_⟩
  · cases ht : seekPointInPiece seek (u32 (Piece.size piece)) s.own.pieceHeader.dataHeaderLength.toNat with
    | true =>
      have hn : (pplDataNote piece seek s).header.hasSeekPoint = 1 := by
        show (if _ then (1 : BitVec 8) else 0) = 1
        rw [if_pos ht]
      rw [latestSeek_has hp hn] at hm
      cases hm
      show BitVec.ofNat 32 s.base.w.currentPieceId = .ofNat 32 (if _ then _ else _)
      rw [if_pos ht]
    | false =>
      have hn : (pplDataNote piece seek s).header.hasSeekPoint ≠ 1 := by
        show (if _ then (1 : BitVec 8) else 0) ≠ 1
        rw [if_neg (by simp [ht])]
        decide
      rw [latestSeek_not hp hn] at hm
      show _ = BitVec.ofNat 32 (if _ then _ else _)
      rw [if_neg (by simp [ht])]
      exact h.seek m hm
  · rw [latestHeaderLength_not hp rfl]
    exact h.header

/-- The seek point of a data piece is right exactly under the condition. -/
theorem Remembers.right_iff (h : Remembers s.own ps) (hl : latestSeek ps ≠ none) (piece : Piece) (seek : Nat) :
    SeekRight ps (pplDataNote piece seek s) seek ↔ SeekSound ps (pplDataNote piece seek s) seek := by
  obtain ⟨m, hm⟩ := Option.ne_none_iff_exists'.mp hl
  have hdata : (pplDataNote piece seek s).data = piece := rfl
  have hcue : (pplDataNote piece seek s).cue = cueOf s.base.w := rfl
  rw [SeekRight, SeekSound, ← h.header, hdata, hcue]
  cases ht : seekPointInPiece seek (u32 (Piece.size piece)) s.own.pieceHeader.dataHeaderLength.toNat with
  | true =>
    have h₁ : (pplDataNote piece seek s).header.hasSeekPoint = 1 := by
      show (if _ then (1 : BitVec 8) else 0) = 1
      rw [if_pos ht]
    have h₂ : (pplDataNote piece seek s).header.seekPoint.toNat = (seek + Piece.size (cueOf s.base.w)) % 2 ^ 32 := by
      show (BitVec.ofNat 32 (if _ then _ else _)).toNat = _
      rw [if_pos ht, BitVec.toNat_ofNat]
      unfold u32
      omega
    rw [h₁, h₂]
    by_cases hs : seek < Piece.size piece
    · rw [if_pos hs]
      constructor
      · intro h
        exact ⟨iff_of_true rfl hs, fun _ => by have := h.2; omega⟩
      · intro h
        exact ⟨rfl, Nat.mod_eq_of_lt (h.2 hs)⟩
    · rw [if_neg hs]
      exact iff_of_false (fun h => absurd h.1 (by decide)) fun h => hs (h.1.mp rfl)
  | false =>
    have h₁ : (pplDataNote piece seek s).header.hasSeekPoint = 0 := by
      show (if _ then (1 : BitVec 8) else 0) = 0
      rw [if_neg (by simp [ht])]
    have h₂ : (pplDataNote piece seek s).header.seekPoint = m.header.pieceId := by
      rw [h.seek m hm]
      show BitVec.ofNat 32 (if _ then _ else _) = _
      rw [if_neg (by simp [ht])]
    rw [h₁, h₂]
    by_cases hs : seek < Piece.size piece
    · rw [if_pos hs]
      exact iff_of_false (fun h => absurd h.1 (by decide)) fun h => absurd (h.1.mpr hs) (by decide)
    · rw [if_neg hs]
      exact iff_of_true ⟨rfl, m, hm, rfl⟩ ⟨iff_of_false (by decide) hs, fun h => absurd h hs⟩

/-! ## What the actions keep -/

/-- Every data piece written has the right seek point exactly under the condition. -/
def SeekLogged : List (Placed PplNote) → Prop :=
  AtEach fun pre p => ∀ n seek, p.note = some n → n.kind = .data seek → (SeekRight pre n seek ↔ SeekSound pre n seek)

/-- One of the attempts made has failed. -/
def HasFailed (env : PieceEnv) (s : PplWorld) : Prop := ∃ i < s.base.fs.attempts, env.pieceFaults i ≠ .none

/-- What holds between two actions as long as no attempt has failed. -/
structure SeekReady (s : PplWorld) : Prop where
  dirs : s.base.fs.filePath ∈ s.base.fs.disk.dirs
  remembers : Remembers s.own s.placed
  headed : s.base.w.stat = .normal → latestSeek s.placed ≠ none
  logged : SeekLogged s.placed

/-- What the actions keep. -/
def SeekKept (env : PieceEnv) (s : PplWorld) : Prop := HasFailed env s ∨ SeekReady s

/-- What holds also inside of a loop. -/
def SeekSeen (env : PieceEnv) (s : PplWorld) : Prop := HasFailed env s ∨ SeekLogged s.placed

variable {env : PieceEnv} {t : PplWorld}

theorem HasFailed.mono (h : HasFailed env s) (ha : s.base.fs.attempts ≤ t.base.fs.attempts) : HasFailed env t := by
  obtain ⟨i, hi, hf⟩ := h
  exact ⟨i, hi.trans_le ha, hf⟩

theorem SeekKept.seen (h : SeekKept env s) : SeekSeen env s := h.imp_right (·.logged)

/-- Once an attempt has failed, the loops have nothing else to keep. -/
theorem hasFailed_retry {leaves : Bool} {attempt : Int → Prog PplWorld AttemptEnd} {len : Nat}
    (ha : ∀ (e : Int) (s : PplWorld), WP (attempt e) s (fun _ t => Strayed s t) fun _ => False) (fuel n : Nat)
    (h : HasFailed env s) :
    WP (retryLoop env leaves attempt len fuel 0 n) s (fun _ t => HasFailed env t) (HasFailed env) :=
  retryLoop_keeps (fun e _ h => (ha e _).mono (fun _ _ ht => h.mono ht.attempts) fun _ h => h)
    (fun h ht => h.mono ht.strayed.attempts) fuel 0 n h

theorem attemptPiece_strayed (note : PplNote) (e : Int) (s : PplWorld) :
    WP (attemptPiece env pieceExtension note note.content e) s (fun _ t => Strayed s t) fun _ => False :=
  (attemptPiece_outcome env (.inl rfl) note note.content e s).mono (fun _ _ h => (h.strayed (.inl rfl)).1) fun _ h => h

theorem attemptHead_strayed (note : PplNote) (e : Int) (s : PplWorld) :
    WP (attemptHead env note note.content e) s (fun _ t => Strayed s t) fun _ => False :=
  (attemptHead_outcome env note note.content e s).mono (fun _ _ h => h.strayed) fun _ h => h

/-- Pieces that are no data pieces say nothing about seek points. -/
theorem SeekLogged.append {note : PplNote} (hk : ∀ seek, note.kind ≠ .data seek) {qs : List (Placed PplNote)}
    (h : SeekLogged ps) (hq : ∀ q ∈ qs, q.note = some note ∨ q.note = none) : SeekLogged (ps ++ qs) := by
  apply AtEach.append h
  intro pre q hm n seek hn he
  rcases hq q hm with hq | hq
  · rw [hq] at hn
    cases hn
    exact absurd he (hk seek)
  · rw [hq] at hn
    cases hn

/-- They leave what the log says about seek points, whether they are put in place or not. -/
theorem SeekLogged.retry {note : PplNote} (hk : ∀ seek, note.kind ≠ .data seek) {leaves : Bool}
    {attempt : Int → Prog PplWorld AttemptEnd} (ha : ∀ (e : Int) (u : PplWorld), WP (attempt e) u
      (fun _ v => ∃ qs, v.placed = u.placed ++ qs ∧ ∀ q ∈ qs, q.note = some note ∨ q.note = none) fun _ => False)
    (len fuel : Nat) (e : Int) (n : Nat) (h : SeekLogged s.placed) :
    WP (retryLoop env leaves attempt len fuel e n) s (fun _ t => SeekLogged t.placed) fun t => SeekLogged t.placed := by
  refine retryLoop_keeps (fun e u hu => (ha e u).mono (fun _ v hv => ?_) fun _ h => h)
    (fun hu hv => by rw [hv.placed]; exact hu) fuel e n h
  obtain ⟨qs, hq, hn⟩ := hv
  rw [hq]
  exact hu.append hk hn

/-! ## Special pieces -/

theorem seekKept_special (n : Nat) {ty : Nat} (hty : ty ≤ 1) (h : SeekKept env s) :
    WP (pplWriteOneSpecialPiece env n ty) s (fun _ t => SeekKept env t) (SeekSeen env) := by
  let note := pplSpecialNote ty s
  have hf : ∀ {t : PplWorld}, HasFailed env t →
      WP (pushPiece note.header.pieceLength.toNat) t (fun _ u => SeekKept env u) (SeekSeen env) :=
    fun h => .modify (.inl h)
  unfold WP
  rw [pplWriteOneSpecialPiece_eq env n hty s]
  refine WP.bind (.get ?_)
  rcases h with h | h
  · have h' : HasFailed env (pplSpecialStart ty s) := h
    refine .seq ((hasFailed_retry (attemptPiece_strayed note) n _ h').mono (fun _ _ h => h) fun _ h => .inl h)
      fun _ t ht => hf ht
  · have hkeep : WP (retryLoop env true (attemptPiece env pieceExtension note note.content)
        note.header.pieceLength.toNat n 0 (env.removedSize (pplSpecialStart ty s).base.fs.attempts)) (pplSpecialStart ty s)
        (fun _ t => SeekLogged t.placed) fun t => SeekLogged t.placed := by
      have hk : ∀ seek, note.kind ≠ .data seek := nofun
      refine SeekLogged.retry hk (fun e u => ?_) _ n 0 _ h.logged
      refine (attemptPiece_outcome env (.inl rfl) note note.content e u).mono (fun _ v hv => ?_) fun _ h => h
      obtain ⟨qs, hq, hn⟩ := hv.notes
      exact ⟨qs, hq, fun q hm => .inl (hn q hm)⟩
    refine .seq (((retryLoop_leaves (.inl rfl) n _ _).and hkeep).mono (fun _ _ h => h) fun _ h => .inr h.2) fun _ t ht => ?_
    rcases ht with ⟨⟨-, ht⟩ | ⟨hfail, -, ha, -⟩, hl⟩
    · refine .modify (.inr ⟨?_, ?_, fun _ => ?_, hl⟩)
      · show t.base.fs.filePath.dropLast ∈ t.base.fs.disk.dirs
        have hp : t.base.fs.filePath = pieceFile s.base.fs.filePath s.base.w.currentPieceId pieceExtension := ht.base.filePath
        rw [hp, dropLast_pieceFile, ht.base.dirs]
        exact h.dirs
      · show Remembers t.own t.placed
        rw [ht.own, ht.placed]
        exact h.remembers.special ty rfl
      · show latestSeek t.placed ≠ none
        rw [ht.placed, latestSeek_has rfl rfl]
        exact nofun
    · exact hf ⟨_, ha, hfail.resolve_right (not_not.mpr h.dirs)⟩

/-! ## Head pieces -/

theorem seekKept_head (n : Nat) (piece : Piece) (seek : Nat) (h : SeekKept env s) :
    WP (writeHeadPiece env n piece seek) s (fun _ t => SeekKept env t) (SeekSeen env) := by
  let note := pplHeadNote piece seek s
  unfold WP
  rw [writeHeadPiece_eq]
  rcases h with h | h
  · have h' : HasFailed env (pplHeadStart piece seek s) := h
    refine WP.seq ((hasFailed_retry (attemptHead_strayed note) n 0 h').mono (fun _ _ h => h) fun _ h => .inl h) ?_
    exact fun _ t ht => .modify (.inl ht)
  · have hkeep : WP (retryLoop env false (attemptHead env note note.content) note.header.pieceLength.toNat n 0 0)
        (pplHeadStart piece seek s) (fun _ t => SeekLogged t.placed) fun t => SeekLogged t.placed := by
      have hk : ∀ seek, note.kind ≠ .data seek := nofun
      refine SeekLogged.retry hk (fun e u => ?_) _ n 0 0 h.logged
      exact (attemptHead_outcome env note note.content e u).mono (fun _ _ hv => hv.notes) fun _ h => h
    refine WP.seq (((retryLoop_head env note note.content _ n _).and hkeep).mono (fun _ _ h => h) fun _ h => .inr h.2)
      fun _ u hu => ?_
    obtain ⟨⟨p, t, -, hm, hc⟩, hl⟩ := hu
    have hp : u.base.fs.filePath = pieceFile s.base.fs.filePath s.base.w.currentPieceId pieceExtension := hc.base.filePath
    have hd : u.base.fs.disk.dirs = s.base.fs.disk.dirs := hc.base.dirs.trans hm.dirs
    have hown : u.own = (pplHeadStart piece seek s).own := hc.own.trans hm.own
    refine .modify (.inr ⟨?_, ?_, fun _ => ?_, hl⟩)
    · show u.base.fs.filePath.dropLast ∈ u.base.fs.disk.dirs
      rw [hp, hd, dropLast_pieceFile]
      exact h.dirs
    · have hr : Remembers u.own u.placed := by
        rw [hown, hc.placed, onPath_placed, hm.placed]
        exact (remembers_head piece seek rfl).copy rfl
      exact ⟨hr.seek, hr.header⟩
    · show latestSeek u.placed ≠ none
      rw [hc.placed, latestSeek_none rfl, onPath_placed, hm.placed, latestSeek_has rfl rfl]
      exact nofun

/-! ## Data pieces -/

theorem seekKept_data (n : Nat) (piece : Piece) (seek : Nat) (h : SeekKept env s) (hs : s.base.w.stat = .normal) :
    WP (writeDataPiece env n piece seek) s (fun _ t => SeekKept env t) (SeekSeen env) := by
  let note := pplDataNote piece seek s
  have hf : ∀ {t : PplWorld}, HasFailed env t →
      WP (pushPiece note.header.pieceLength.toNat) t (fun _ u => SeekKept env u) (SeekSeen env) :=
    fun h => .modify (.inl h)
  unfold WP
  rw [writeDataPiece_eq]
  rcases h with h | h
  · have h' : HasFailed env (pplDataStart piece seek s) := h
    refine WP.seq ((hasFailed_retry (attemptPiece_strayed note) n 0 h').mono (fun _ _ h => h) fun _ h => .inl h) ?_
    exact fun _ t ht => hf ht
  · refine WP.seq ((retryLoop_first (K := HasFailed env)
      (G := Arrived (some note) (pieceFile s.base.fs.filePath s.base.w.currentPieceId pieceExtension) note.content
        (tried (pieceFile s.base.fs.filePath s.base.w.currentPieceId pieceExtension) (pplDataStart piece seek s)))
      ?_ ?_ ?_ n 0).mono (fun _ _ h => h) fun t ht => ?_) fun _ t ht => ?_
    · refine (attemptPiece_outcome env (.inl rfl) note note.content 0 _).mono (fun r t ht => ?_) fun _ h => h
      have ha := (ht.strayed (.inl rfl)).2
      have hfail : ∀ {u : PplWorld}, AttemptFails env (pplDataStart piece seek s) →
          (pplDataStart piece seek s).base.fs.attempts < u.base.fs.attempts → HasFailed env u :=
        fun hf ha => ⟨_, ha, hf.resolve_right (not_not.mpr h.dirs)⟩
      cases ht with
      | broke _ hf _ => exact .inr (hfail hf ha)
      | thrown _ hf _ => exact .inr (hfail hf ha)
      | done _ ht => exact .inl ⟨rfl, rfl, ht⟩
    · exact fun e u hu => (attemptPiece_strayed note e u).mono (fun _ _ ht => hu.mono ht.attempts) fun _ h => h
    · exact fun hu ht => hu.mono ht.strayed.attempts
    · rcases ht with rfl | ht
      · exact .inr h.logged
      · exact .inl ht
    · rcases ht with ht | ht
      · have hl : latestSeek s.placed ≠ none := h.headed hs
        refine .modify (.inr ⟨?_, ?_, fun _ => ?_, ?_⟩)
        · show t.base.fs.filePath.dropLast ∈ t.base.fs.disk.dirs
          have hp : t.base.fs.filePath = pieceFile s.base.fs.filePath s.base.w.currentPieceId pieceExtension := ht.base.filePath
          rw [hp, dropLast_pieceFile, ht.base.dirs]
          exact h.dirs
        · show Remembers t.own t.placed
          rw [ht.own, ht.placed]
          exact h.remembers.data piece seek rfl
        · show latestSeek t.placed ≠ none
          rw [ht.placed]
          by_cases hn : note.header.hasSeekPoint = 1
          · rw [latestSeek_has (n := note) rfl hn]
            exact nofun
          · rw [latestSeek_not (n := note) rfl hn]
            exact hl
        · show SeekLogged t.placed
          rw [ht.placed]
          apply AtEach.concat h.logged
          intro n seek' hn hk
          cases hn
          cases hk
          exact h.remembers.right_iff hl piece seek
      · exact hf ht

/-! ## Runs -/

/-- Files are removed and written, and the queue of pieces changes. -/
theorem SeekKept.disk {b : World} (h : SeekKept env s) (hr : offRemoval b = offRemoval s.base)
    (hd : b.fs.disk.dirs = s.base.fs.disk.dirs) : SeekKept env { s with base := b } := by
  have hp : b.fs.filePath = s.base.fs.filePath := congrArg (·.fs.filePath) hr
  have hw : b.w = s.base.w := congrArg (·.w) hr
  have ha : b.fs.attempts = s.base.fs.attempts := congrArg (·.fs.attempts) hr
  rcases h with h | h
  · exact .inl (h.mono ha.ge)
  · refine .inr ⟨?_, h.remembers, fun hs => h.headed ?_, h.logged⟩
    · show b.fs.filePath ∈ b.fs.disk.dirs
      rw [hp, hd]
      exact h.dirs
    · rw [← hw]
      exact hs

theorem SeekKept.calm {b : World} (h : SeekKept env s) (hc : Calm s.base b) : SeekKept env { s with base := b } :=
  h.disk hc.rest hc.dirs

/-- A copy of a head piece is no piece of its own. -/
theorem SeekKept.copy (h : SeekKept env s) (hp : p.note = none) : SeekKept env { s with placed := s.placed ++ [p] } := by
  rcases h with h | h
  · exact .inl h
  · refine .inr ⟨h.dirs, h.remembers.copy hp, fun hs => ?_, AtEach.concat h.logged fun n seek hn => ?_⟩
    · show latestSeek (s.placed ++ [p]) ≠ none
      rw [latestSeek_none hp]
      exact h.headed hs
    · rw [hp] at hn
      cases hn

/-- What the copies of head pieces leave as it is. -/
def dirsAndRest (b : World) : World × List Path := (offRemoval b, b.fs.disk.dirs)

theorem writeThrough_dirsAndRest (p : Path) : ∀ cs : List (List Byte), Keeps dirsAndRest (writeThrough p cs)
  | [] => .pure ()
  | _ :: cs => .bind (.modify fun _ => rfl) fun _ => writeThrough_dirsAndRest p cs

theorem remove_dirsAndRest (p : Path) : Keeps dirsAndRest (diskOp (·.remove p)) := .modify fun _ => rfl

theorem seekKept_onBase {α : Type} {m : Prog World α} (hm : Keeps dirsAndRest m) (h : SeekKept env s) :
    WP (onBase m) s (fun _ t => SeekKept env t) (SeekKept env) := by
  have hd : ∀ b : World, dirsAndRest b = dirsAndRest s.base → SeekKept env { s with base := b } :=
    fun b hb => h.disk (congrArg (·.1) hb) (congrArg (·.2) hb)
  exact onBase_wp ((hm s.base).mono (fun _ b hb => hd b hb) fun b hb => hd b hb)

theorem seekKept_copyIntoPlace (source target : Path) (fault : Option CopyFault) (h : SeekKept env s) :
    WP (copyIntoPlace source target fault) s (fun _ t => SeekKept env t) (SeekKept env) := by
  cases fault with
  | some f =>
    have hthrow : ∀ {t : PplWorld}, SeekKept env t → WP (pure (some f.code.val) : Prog PplWorld (Option Int)) t
        (fun _ u => SeekKept env u) (SeekKept env) := fun h => .pure h
    obtain ⟨removed, copied, code⟩ := f
    cases removed with
    | true =>
      refine .bind (.get (.seq (seekKept_onBase (remove_dirsAndRest target) h) fun _ t ht => ?_))
      cases copied with
      | none => exact hthrow ht
      | some n => exact .seq (seekKept_onBase (writeThrough_dirsAndRest _ _) ht) fun _ u hu => hthrow hu
    | false =>
      refine .bind (.get ?_)
      cases copied with
      | none => exact hthrow h
      | some n => exact .seq (seekKept_onBase (writeThrough_dirsAndRest _ _) h) fun _ u hu => hthrow hu
  | none =>
    have hcopy : ∀ {t : PplWorld}, SeekKept env t → WP (do
          onBase (writeThrough target ((s.base.fs.disk.read source).getD []).inits)
          record none target
          pure none : Prog PplWorld (Option Int)) t (fun _ u => SeekKept env u) (SeekKept env) := by
      intro t ht
      exact .seq (seekKept_onBase (writeThrough_dirsAndRest _ _) ht) fun _ u hu => .bind (.modify (.pure (hu.copy rfl)))
    refine .bind (.get ?_)
    split
    · exact .seq (seekKept_onBase (remove_dirsAndRest target) h) fun _ t ht => hcopy ht
    · exact hcopy h

theorem seekKept_copyHeads (dir : Path) : ∀ (l : List (Name × List Byte)) {s : PplWorld}, SeekKept env s →
    WP (copyHeads env dir l) s (fun _ t => SeekKept env t) (SeekKept env)
  | [], _, h => .pure h
  | f :: rest, s, h => by
    rw [copyHeads]
    split
    · have ht : SeekKept env { s with base := { s.base with fs := { s.base.fs with attempts := s.base.fs.attempts + 1 } } } := by
        rcases h with h | h
        · exact .inl (h.mono (Nat.le_succ _))
        · exact .inr ⟨h.dirs, h.remembers, h.headed, h.logged⟩
      refine .bind (onBase_wp (.bind (.get (.bind (.modify (.pure ?_))))))
      exact .seq (seekKept_copyIntoPlace _ _ _ ht) fun _ u hu => seekKept_copyHeads dir rest hu
    · exact seekKept_copyHeads dir rest h

theorem seekKept_rules (env : PieceEnv) (dir : Path) : PplRunRules env dir (SeekKept env) (SeekSeen env) where
  running _ h := h.seen
  inactive {s t} h hi := by
    have ha : t.base.fs.attempts = s.base.fs.attempts := by rw [hi.fs]
    rcases h with h | h
    · exact .inl (h.mono ha.ge)
    · refine .inr ⟨by rw [hi.fs]; exact h.dirs, by rw [hi.own, hi.placed]; exact h.remembers, fun hs => ?_,
        by rw [hi.placed]; exact h.logged⟩
      rw [hi.placed]
      exact h.headed (hi.stat hs)
  stat := pplSpecial_stat env
  special n _ _ hty h := seekKept_special n hty h
  begin _ _ _ h := h.imp_right fun h => ⟨h.dirs, h.remembers, h.headed, h.logged⟩
  expire old s h := onBase_wp ((dropExpired_moves (calm_removal env.toEnv) old _ s.base).mono (fun _ _ hb => h.calm hb)
    fun _ hb => (h.calm hb).seen)
  header _ _ h := h.imp_right fun h => ⟨h.dirs, h.remembers, nofun, h.logged⟩
  head n piece seek _ h := seekKept_head n piece seek h
  data n piece seek _ h hs := seekKept_data n piece seek h hs
  heads old s h := (dropHeads_keeps SeekKept.calm (fun q s h => h.imp_right fun h => ⟨h.dirs, ⟨h.remembers.seek,
    h.remembers.header⟩, h.headed, h.logged⟩) env.toEnv old _ h).mono (fun _ _ h => h) fun _ h => h.seen
  calm := SeekKept.calm
  resumed _ _ h := h.imp_right fun h => ⟨h.dirs, h.remembers, h.headed, h.logged⟩
  headQueue _ _ h := h.imp_right fun h => ⟨h.dirs, ⟨h.remembers.seek, h.remembers.header⟩, h.headed, h.logged⟩
  headerId _ _ h := h.imp_right fun h => ⟨h.dirs, ⟨h.remembers.seek, h.remembers.header⟩, h.headed, h.logged⟩
  copies s h := (seekKept_copyHeads _ _ h).mono (fun _ _ h => h) fun _ h => h.seen

theorem seekSeen_visited {fuel : Nat} {u : Uninit} {lastSeek : Nat} {dir : Path} {guid : Name}
    {scale life headLife report : Nat} {disk : Tree}
    (h : Visited (pplRun env fuel (pplConstruct u lastSeek dir guid scale life headLife report disk)) (pplProg env) t) :
    SeekSeen env t :=
  (seekKept_rules env _).visited (s := pplConstruct u lastSeek dir guid scale life headLife report disk) rfl
    (fun hd => .inr ⟨hd, ⟨nofun, rfl⟩, nofun, AtEach.nil⟩) h

/-- In every run in which no attempt to write a file has failed, the seek point of
each data piece written is right exactly if the test finds out whether the offset
lies in the piece; for offsets and sizes below `2^31`, exactly if it does not lie
in the last bytes, as many as the data header of the latest head piece has. -/
theorem seek_points {fuel : Nat} {u : Uninit} {lastSeek : Nat} {dir : Path} {guid : Name}
    {scale life headLife report : Nat} {disk : Tree}
    (h : Visited (pplRun env fuel (pplConstruct u lastSeek dir guid scale life headLife report disk)) (pplProg env) t)
    (hf : ∀ i < t.base.fs.attempts, env.pieceFaults i = .none) {pre : List (Placed PplNote)} {p : Placed PplNote}
    {post : List (Placed PplNote)} {n : PplNote} {seek : Nat} (hp : t.placed = pre ++ p :: post)
    (hn : p.note = some n) (hk : n.kind = .data seek) :
    (SeekRight pre n seek ↔ SeekSound pre n seek) ∧
      (seek < 2 ^ 31 → Piece.size n.data < 2 ^ 31 → Piece.size n.cue < 2 ^ 31 →
        (SeekSound pre n seek ↔ ¬ (seek < Piece.size n.data ∧ Piece.size n.data ≤ seek + latestHeaderLength pre))) := by
  refine ⟨?_, fun h₁ h₂ h₃ => seekSound_iff h₁ h₂ h₃⟩
  rcases seekSeen_visited h with ⟨i, hi, hfail⟩ | hl
  · exact absurd (hf i hi) hfail
  · exact hl pre p post hp n seek hn hk

/-! ## A data piece of three bytes -/

/-- The clock stands at 100, and nothing fails. -/
def steady : PieceEnv where
  utc _ := 100
  faults _ := .none
  removeThrows _ := false
  removedSize _ := 0
  md5 _ := .replicate 16 0
  onairTag := none
  pieceFaults _ := .none
  copyFaults _ := none

/-- The writer on an empty directory, with slots of 5 seconds. -/
def newWriter : PplWorld :=
  pplConstruct ⟨.replicate 16 0, .replicate 16 0, .replicate 338 0⟩ 0 [] ['c'] 5 1000 1000 60 ⟨[[['c']]], []⟩

/-- A data header of two bytes, a first piece, and a data piece of three bytes
posted with the offset `seek`: the state, the file and what is written in it. -/
def threeBytes (seek : Nat) : Option (PplWorld × Placed PplNote × PplNote) :=
  (pplRun steady 9 newWriter).andThen fun _ w =>
    (runHandlers (pplProg steady) w
      [.writePiece 9 [[1, 2]] 0 0, .writePiece 9 [[3]] 0 0, .writePiece 9 [[4, 5, 6]] seek 0]).bind fun t =>
        t.placed[2]?.bind fun p => p.note.map fun n => (t, p, n)

theorem threeBytes_visited {seek : Nat} (h : threeBytes seek = some (t, p, n)) :
    Visited (pplRun steady 9 newWriter) (pplProg steady) t ∧ t.placed = t.placed.take 2 ++ p :: t.placed.drop 3 ∧
      p.note = some n := by
  obtain ⟨_, w, hw, h⟩ := Res.andThen_eq_some h
  obtain ⟨t', ht, h⟩ := Option.bind_eq_some_iff.mp h
  obtain ⟨p', hp, h⟩ := Option.bind_eq_some_iff.mp h
  obtain ⟨n', hn, e⟩ := Option.map_eq_some_iff.mp h
  cases e
  refine ⟨.between ((Rested.start hw).of_runHandlers ht), ?_, hn⟩
  obtain ⟨hl, hp⟩ := List.getElem?_eq_some_iff.mp hp
  rw [← hp, List.getElem_cons_drop, List.take_append_drop]

/-- The offset 1 lies in the piece, but the piece gets no seek point. -/
theorem short_piece_without_seek_point :
    ∃ (t : PplWorld) (p : Placed PplNote) (n : PplNote),
      Visited (pplRun steady 9 newWriter) (pplProg steady) t ∧ t.placed = t.placed.take 2 ++ p :: t.placed.drop 3 ∧
      p.note = some n ∧ n.kind = .data 1 ∧ Piece.size n.data = 3 ∧ n.header.hasSeekPoint = 0 ∧
      ¬ SeekRight (t.placed.take 2) n 1 := by
  have h : (threeBytes 1).map (fun r => decide (r.2.2.kind = .data 1 ∧ Piece.size r.2.2.data = 3 ∧
      r.2.2.header.hasSeekPoint = 0)) = some true := by decide +kernel
  obtain ⟨⟨t, p, n⟩, hr, e⟩ := Option.map_eq_some_iff.mp h
  obtain ⟨ht, hp, hn⟩ := threeBytes_visited hr
  obtain ⟨hk, hd, hs⟩ := of_decide_eq_true e
  refine ⟨t, p, n, ht, hp, hn, hk, hd, hs, fun hr => ?_⟩
  rw [SeekRight, if_pos (by rw [hd]; decide), hs] at hr
  exact absurd hr.1 (by decide)

/-- The piece with the offset 0 has its seek point. -/
theorem seek_points_threeBytes :
    ∃ (t : PplWorld) (p : Placed PplNote) (n : PplNote), t.placed = t.placed.take 2 ++ p :: t.placed.drop 3 ∧
      p.note = some n ∧ n.kind = .data 0 ∧ SeekRight (t.placed.take 2) n 0 := by
  have h : (threeBytes 0).map (fun r => decide (r.2.2.kind = .data 0 ∧ Piece.size r.2.2.data = 3 ∧
      Piece.size r.2.2.cue = 0 ∧ latestHeaderLength (r.1.placed.take 2) = 2)) = some true := by decide +kernel
  obtain ⟨⟨t, p, n⟩, hr, e⟩ := Option.map_eq_some_iff.mp h
  obtain ⟨ht, hp, hn⟩ := threeBytes_visited hr
  obtain ⟨hk, hd, hc, hl⟩ := of_decide_eq_true e
  obtain ⟨hiff, hsound⟩ := seek_points ht (fun _ _ => rfl) hp hn hk
  refine ⟨t, p, n, hp, hn, hk, hiff.mpr ?_⟩
  exact (hsound (by decide) (by rw [hd]; decide) (by rw [hc]; decide)).mpr (by rw [hd, hl]; decide)

end XH.Proof.Cutter
