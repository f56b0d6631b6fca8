import Xhome.Framework.Decimal
import Xhome.Impl.Vod.Routes
import Xhome.Proof.Cutter.Disk

/-!
# Where a block lies

`GetFilePathName` builds the path of a block from `file_path_` whenever the
last entry of `dir_queue_` has the number of its directory. A failed creation
changes `file_path_` and not the queue; but then the handler stays at this
block. So `file_path_` belongs to the last entry between the handlers
(`Housed`), and in a handler whenever no new directory has to be entered
(`Entered`). The entry that `Init` has found is what is left: `NewestNamed`.
-/

namespace XH.Proof.Cutter

open XH.Impl.Cutter XH.Impl.Vod

/-- The numbers of the directories of ten-digit ids. -/
def SevenDigits (k : Nat) : Prop := 10 ^ 6 ≤ k ∧ k < 10 ^ 7

def TenDigits (id : Nat) : Prop := 10 ^ 9 ≤ id ∧ id < 10 ^ 10

theorem TenDigits.dir {id : Nat} (h : TenDigits id) : SevenDigits (id / dirScale) := by
  obtain ⟨h₁, h₂⟩ := h
  simp only [SevenDigits, dirScale]
  omega

/-! ## The directory in use -/

/-- Between the handlers `file_path_` is the directory of the last entry. -/
structure Housed (dir : Path) (guid : Name) (s : World) : Prop where
  dirPath : s.w.dirPath = dir
  guidStr : s.w.guidStr = guid
  last : ∀ e, s.fs.dirQueue.getLast? = some e → SevenDigits e.id → s.fs.filePath = dir ++ [decimal e.id, guid]

/-- While a block is written: if its directory need not be entered, `file_path_` is that. -/
structure Entered (dir : Path) (guid : Name) (s : World) : Prop where
  dirPath : s.w.dirPath = dir
  guidStr : s.w.guidStr = guid
  current : s.entersDir = false → SevenDigits (s.w.currentPieceId / dirScale) →
    s.fs.filePath = homeOf dir guid s.w.currentPieceId

section
variable {dir : Path} {guid : Name} {s t : World}

theorem last_of_entersDir (h : s.entersDir = false) :
    ∃ e, s.fs.dirQueue.getLast? = some e ∧ e.id = s.w.currentPieceId / dirScale := by
  have he : s.fs.dirQueue.getLast?.map (·.id) = some (s.w.currentPieceId / dirScale) := by
    simpa [World.entersDir] using h
  exact Option.map_eq_some_iff.mp he

theorem Housed.entered (h : Housed dir guid s) : Entered dir guid s := by
  refine ⟨h.dirPath, h.guidStr, fun he hd => ?_⟩
  obtain ⟨e, hl, hid⟩ := last_of_entersDir he
  rw [homeOf, ← hid]
  exact h.last e hl (hid ▸ hd)

theorem Entered.housed (h : Entered dir guid s) (he : s.entersDir = false) : Housed dir guid s := by
  obtain ⟨e, hl, hid⟩ := last_of_entersDir he
  refine ⟨h.dirPath, h.guidStr, fun e' hl' hd => ?_⟩
  obtain rfl : e = e' := Option.some.inj (hl.symm.trans hl')
  rw [hid] at hd ⊢
  exact h.current he hd

/-- A change of other fields. -/
theorem Housed.of_eq (h : Housed dir guid s) (hd : t.w.dirPath = s.w.dirPath) (hg : t.w.guidStr = s.w.guidStr)
    (hf : t.fs.filePath = s.fs.filePath) (hq : t.fs.dirQueue = s.fs.dirQueue) : Housed dir guid t :=
  ⟨hd.trans h.dirPath, hg.trans h.guidStr, by rw [hf, hq]; exact h.last⟩

/-- What `GetFilePathName` decides by. -/
def dirState (s : World) : Writer × Path × List DirInfo := (s.w, s.fs.filePath, s.fs.dirQueue)

theorem Entered.of_dirState (h : Entered dir guid s) (hk : dirState t = dirState s) : Entered dir guid t := by
  have hw : t.w = s.w := congrArg (·.1) hk
  have hp : t.fs.filePath = s.fs.filePath := congrArg (·.2.1) hk
  have hq : t.fs.dirQueue = s.fs.dirQueue := congrArg (·.2.2) hk
  refine ⟨hw ▸ h.dirPath, hw ▸ h.guidStr, fun he hd => ?_⟩
  rw [World.entersDir, hw, hq] at he
  rw [hw] at hd ⊢
  rw [hp]
  exact h.current he hd

end

theorem dirState_writes : WriteMoves (SameValue dirState) :=
  ⟨fun _ => .modify fun _ => rfl, fun _ => .modify fun _ => rfl⟩

section
variable {dir : Path} {guid : Name} {s : World}

/-- `GetFilePathName`: the path is in the directory of the block, or none; and
what comes next finds that directory, or has to enter it again. -/
theorem getFilePathName_entered (h : Entered dir guid s) (fault : Fault) :
    WP (getFilePathName fault) s (fun path t => Entered dir guid t ∧
      (SevenDigits (s.w.currentPieceId / dirScale) → path ≠ [] →
        path = homeOf dir guid s.w.currentPieceId ++ [blockName s.w.currentPieceId])) (Entered dir guid) := by
  have hdir : s.w.dirPath ++ [decimal (s.w.currentPieceId / dirScale), s.w.guidStr] =
      homeOf dir guid s.w.currentPieceId := by rw [h.dirPath, h.guidStr, homeOf]
  refine .bind (.get ?_)
  simp only [hdir]
  split
  · rename_i he
    refine .bind (.modify ?_)
    split
    · -- the directory cannot be created, and has to be entered still
      refine .pure ⟨⟨h.dirPath, h.guidStr, fun e => ?_⟩, fun _ hp => absurd rfl hp⟩
      exact absurd (he.symm.trans e) (by decide)
    · obtain ⟨t, ht, hk, -⟩ := createDirectories_apply (homeOf dir guid s.w.currentPieceId) []
        { s with fs := { s.fs with filePath := homeOf dir guid s.w.currentPieceId } }
      have hw : t.w = s.w := congrArg (·.w) hk
      have hp : t.fs.filePath = homeOf dir guid s.w.currentPieceId := congrArg (·.fs.filePath) hk
      refine .bind (.of_ret ht (.bind (.modify (.pure ⟨⟨?_, ?_, fun _ _ => ?_⟩, fun _ _ => rfl⟩))))
      · exact (congrArg Writer.dirPath hw).trans h.dirPath
      · exact (congrArg Writer.guidStr hw).trans h.guidStr
      · show t.fs.filePath = _
        rw [hp, hw]
  · rename_i he
    refine .pure ⟨h, fun hd _ => ?_⟩
    rw [h.current (Bool.eq_false_iff.mpr he) hd]

theorem attempt_entered (env : Env) (kind : BlockKind) (data : Piece) (e : Int) (h : Entered dir guid s) :
    WP (attempt env kind data e) s (fun _ t => Entered dir guid t) (Entered dir guid) := by
  have ha : Entered dir guid { s with fs := { s.fs with attempts := s.fs.attempts + 1 } } :=
    ⟨h.dirPath, h.guidStr, h.current⟩
  refine .bind (.get (.bind (.modify (.seq (getFilePathName_entered ha _) fun path t ht => ?_))))
  have hw := writeFile_moves dirState_writes env kind (s.w.blockHeader.serialize ++ data.flatten) e (env.faults s.fs.attempts) path t
  exact .seq (hw.mono (fun _ _ hk => ht.1.of_dirState hk) fun _ hk => ht.1.of_dirState hk) fun _ _ hu => .pure hu

/-- The retry loop, returned or not. -/
theorem writeLoop_entered (env : Env) (kind : BlockKind) (data : Piece) (len : Nat) :
    ∀ (fuel : Nat) (e : Int) (n : Nat) {s : World}, Entered dir guid s →
      WP (writeLoop env kind data len fuel e n) s (fun _ t => Entered dir guid t) (Entered dir guid)
  | 0, _, _, _, h => .running h
  | fuel + 1, e, n, s, h => by
    refine .seq (attempt_entered env kind data e h) fun r t ht => ?_
    split
    · split
      · have hd : Keeps dirState (decreasePiece env len) := (decreasePiece_offRemoval env len).comp dirState
        exact .seq ((hd t).mono (fun _ _ hk => ht.of_dirState hk) fun _ hk => ht.of_dirState hk) fun _ u hu =>
          writeLoop_entered env kind data len fuel _ _ hu
      · exact writeLoop_entered env kind data len fuel _ _ ht
    · exact .pure ht

theorem writeBlock_housed (env : Env) (fuel : Nat) (kind : BlockKind) (data : Piece) (len n : Nat)
    (h : Housed dir guid s) :
    WP (writeBlock env fuel kind data len n) s (fun _ t => Housed dir guid t) (Entered dir guid) := by
  have hh : Housed dir guid (headed env len data s) := h.of_eq rfl rfl rfl rfl
  have hw := writeLoop_entered env kind data (u32 (len + flvBlockHeaderTSize)) fuel 0 n hh.entered
  have he := writeLoop_entersDir env kind data (u32 (len + flvBlockHeaderTSize)) fuel n (headed env len data s)
  refine .bind (.modify (.seq ((hw.and he).mono (fun _ _ h => h) fun t ht => ht.1) fun path t ht => ?_))
  exact .modify ((ht.1.housed ht.2).of_eq rfl rfl rfl rfl)

theorem writeOneSpecialPiece_housed (env : Env) (fuel : Nat) {specialType : Nat} (hty : specialType ≤ 1)
    (h : Housed dir guid s) :
    WP (writeOneSpecialPiece env fuel specialType) s (fun _ t => Housed dir guid t) (Entered dir guid) := by
  have hp : Housed dir guid (specialStart specialType s) := h.of_eq rfl rfl rfl rfl
  unfold WP
  rw [writeOneSpecialPiece_eq env fuel hty]
  exact writeBlock_housed env fuel _ _ _ _ hp

theorem writePiece_housed (env : Env) (fuel : Nat) (piece : Piece) (h : Housed dir guid s) :
    WP (writePiece env fuel piece) s (fun _ t => Housed dir guid t) (Entered dir guid) := by
  have hp : Housed dir guid (cued s) := h.of_eq rfl rfl rfl rfl
  unfold WP
  rw [writePiece_eq]
  exact writeBlock_housed env fuel _ _ _ _ hp

theorem Housed.offRemoval {t : World} (h : Housed dir guid s) (hk : offRemoval t = offRemoval s) : Housed dir guid t :=
  h.of_eq (congrArg (·.w.dirPath) hk) (congrArg (·.w.guidStr) hk) (congrArg (·.fs.filePath) hk)
    (congrArg (·.fs.dirQueue) hk)

end

/-- The invariant of the writer's thread, whatever the clock says and whatever fails. -/
theorem housed_invariant (env : Env) (dir : Path) (guid : Name) :
    Invariant env (Housed dir guid) (Housed dir guid) (Entered dir guid) where
  running _ h := h.entered
  passed _ h := h
  inert h hk := h.of_eq (congrArg Writer.dirPath hk.w : (offFlags _).dirPath = (offFlags _).dirPath)
    (congrArg Writer.guidStr hk.w : (offFlags _).guidStr = (offFlags _).guidStr) (congrArg (·.filePath) hk.fs)
    (congrArg (·.dirQueue) hk.fs)
  tick _ h := h.of_eq rfl rfl rfl rfl
  tickPassed _ h := h.of_eq rfl rfl rfl rfl
  special n _ hty h _ := writeOneSpecialPiece_housed env n hty h
  specialPassed n _ h _ := writeOneSpecialPiece_housed env n (Nat.le_refl 1) h
  guard _ h _ := h
  begin _ h _ := h.of_eq rfl rfl rfl rfl
  header _ _ h := h.of_eq rfl rfl rfl rfl
  piece n p _ h := writePiece_housed env n p h
  expire expired s h := (dropExpired_offRemoval env expired s.fs.pieceFileQueue s).mono
    (fun _ _ hk => h.offRemoval hk) fun _ hk => (h.offRemoval hk).entered
  dirs ds s hd h := by
    refine ⟨h.dirPath, h.guidStr, fun e he => h.last e ?_⟩
    obtain ⟨l, hl⟩ := hd
    have he : ds.getLast? = some e := he
    rw [← hl, List.getLast?_append, he]
    rfl
  update h hu := by
    obtain ⟨_, _, _, _, -, -, ⟨_, -, rfl⟩ | ⟨-, rfl⟩⟩ := handleUpdateHeader_cases hu
    · exact h.of_eq rfl rfl rfl rfl
    · exact h.of_eq rfl rfl rfl rfl

/-! ## `Init` -/

/-- The newest directory that `Init` finds has its number for a name, if that is one of seven digits. -/
def NewestNamed (disk : Tree) (dir : Path) (guid : Name) : Prop :=
  ∀ e, (scanDirs disk dir guid).getLast? = some e → SevenDigits e.2.id → e.2.path = dir ++ [decimal e.2.id, guid]

/-- `Init`, returned or in one of its loops. -/
theorem start_housed (env : Env) (fuel : Nat) (u : Uninit) {dir : Path} {guid : Name} (scale life report : Nat) {disk : Tree}
    (h : NewestNamed disk dir guid) :
    WP (fun s => init env fuel 0 s) (construct u dir guid scale life report disk)
      (fun _ t => Housed dir guid t) (Entered dir guid) := by
  have hdrop : (dir ++ [guid]).dropLast = dir := List.dropLast_concat
  have hlast : ∀ d, (scanned env (construct u dir guid scale life report disk)).fs.dirQueue.getLast? = some d →
      SevenDigits d.id → d.path = dir ++ [decimal d.id, guid] := fun d hd h7 => by
    have hd : ((scanDirs disk (dir ++ [guid]).dropLast guid).map (·.2)).getLast? = some d := hd
    rw [hdrop, List.getLast?_map] at hd
    obtain ⟨e, he, rfl⟩ := Option.map_eq_some_iff.mp hd
    exact h e he h7
  refine ((housed_invariant env dir guid).init fuel 0 (fun hn => ?_) fun d hd => ?_).mono (fun _ _ h => h.1) fun _ h => h
  · exact ⟨hdrop, rfl, fun e he => by rw [hn] at he; cases he⟩
  · have ho : Housed dir guid (opened d (scanned env (construct u dir guid scale life report disk))) :=
      ⟨hdrop, rfl, fun e he h7 => by
        obtain rfl : d = e := Option.some.inj (hd.symm.trans he)
        exact hlast d hd h7⟩
    refine (loadPieces_offRemoval env _ d.path _).mono (fun _ t hk => ?_) fun t hk => (ho.offRemoval hk).entered
    have ht := ho.offRemoval hk
    refine .bind (.get ?_)
    split
    · exact .bind (.modify (.pure (ht.of_eq rfl rfl rfl rfl)))
    · exact .pure ht

/-! ## The web server's rule -/

/-- The path below the cutter's directory that the claim of a block's URI comes to. -/
def served (guid : Name) (id : Nat) : Path := [(decimal id).take 7, guid, blockName id]

/-- A path below `/live`. -/
def liveUri (p : Path) : Name := ['/', 'l', 'i', 'v', 'e'] ++ p.flatMap ('/' :: ·)

theorem served_eq {guid : Name} {id : Nat} (h : TenDigits id) :
    served guid id = [decimal (id / dirScale), guid, blockName id] := by
  rw [served, take_decimal (j := 6) (k := 3) h.1 h.2]
  rfl

/-- The rule on a URI with ten digits. -/
theorem rewriteBlock_digits {guid dir last : Name} (hg : guid ≠ []) (hx : ∀ c ∈ guid, Pattern.hex c)
    (hd : ∀ c ∈ dir, Pattern.digit c) (hd' : dir.length = 7) (hl : ∀ c ∈ last, Pattern.digit c) (hl' : last.length = 3) :
    rewriteBlock (blockUri guid (dir ++ last)) = some (blockFile guid dir last) := by
  have hend : Pattern.groups (.any :: Pattern.text ['b', 'l', 'o', 'c', 'k']) blockExtension = some [] := rfl
  have hlast := Pattern.groups_times hl blockExtension (.any :: Pattern.text ['b', 'l', 'o', 'c', 'k'])
  have hdir := Pattern.groups_times hd (last ++ blockExtension)
    (.times Pattern.digit 3 :: .any :: Pattern.text ['b', 'l', 'o', 'c', 'k'])
  rw [hl', hend] at hlast
  rw [hd', hlast] at hdir
  have hrest := (Pattern.groups_lit '/' (dir ++ (last ++ blockExtension))
    (.times Pattern.digit 7 :: .times Pattern.digit 3 :: .any :: Pattern.text ['b', 'l', 'o', 'c', 'k'])).trans hdir
  have hall : Pattern.groups blockPattern (blockUri guid (dir ++ last)) = some [guid, dir, last] := by
    rw [blockPattern, blockUri, Pattern.groups_text, List.append_assoc]
    exact Pattern.groups_plus hg hx rfl hrest
  rw [rewriteBlock, hall]
  rfl

/-- The rule on the URI of a block. -/
theorem rewriteBlock_blockUri {guid : Name} {id : Nat} (hg : guid ≠ []) (hx : ∀ c ∈ guid, Pattern.hex c) (h : TenDigits id) :
    rewriteBlock (blockUri guid (decimal id)) = some (liveUri (served guid id)) := by
  have hlen : (decimal id).length = 10 := length_decimal (k := 9) h.1 h.2
  have hdig : ∀ c ∈ decimal id, Pattern.digit c := fun c hc => isDigit_of_mem_decimal hc
  have hsplit : decimal id = (decimal id).take 7 ++ (decimal id).drop 7 := (List.take_append_drop 7 _).symm
  have h₁ : ((decimal id).take 7).length = 7 := by rw [List.length_take, hlen]; rfl
  have h₂ : ((decimal id).drop 7).length = 3 := by rw [List.length_drop, hlen]
  rw [served, blockName]
  generalize (decimal id).take 7 = dir at *
  generalize (decimal id).drop 7 = last at *
  rw [hsplit] at hdig ⊢
  rw [rewriteBlock_digits hg hx (fun c hc => hdig c (List.mem_append_left _ hc)) h₁
    (fun c hc => hdig c (List.mem_append_right _ hc)) h₂]
  simp only [blockFile, liveUri, blockExtension, List.flatMap_cons, List.flatMap_nil, List.append_nil, List.append_assoc,
    List.cons_append, List.nil_append]

/-! ## Writer and web server -/

/-- `path` is where the web server finds the block. -/
structure ServedAt (dir : Path) (guid : Name) (id : Nat) (path : Path) : Prop where
  path : path = dir ++ served guid id
  rule : guid ≠ [] → (∀ c ∈ guid, Pattern.hex c) → rewriteBlock (blockUri guid (decimal id)) = some (liveUri (served guid id))

/-- Whatever fails, `GetFilePathName` returns no path or the one where the web
server finds the block. -/
def Located (dir : Path) (guid : Name) (s : World) : Prop :=
  TenDigits s.w.currentPieceId → ∀ fault path t, getFilePathName fault s = .ret path t → path ≠ [] →
    ServedAt dir guid s.w.currentPieceId path

/-- At another block. -/
def atBlock (id : Nat) (s : World) : World := { s with w := { s.w with currentPieceId := id } }

theorem Entered.located {dir : Path} {guid : Name} {s : World} (h : Entered dir guid s) : Located dir guid s := by
  intro h10 fault path t ht hp
  refine ⟨?_, fun hg hx => rewriteBlock_blockUri hg hx h10⟩
  rw [((getFilePathName_entered h fault).ret ht).2 h10.dir hp, served_eq h10, homeOf, List.append_assoc]
  rfl

/-- Writer and web server agree on where a block lies, in every state that a run
of the writer shows, and between its handlers for any block. -/
theorem blocks_located {disk : Tree} {dir : Path} {guid : Name} (h : NewestNamed disk dir guid) (env : Env) (fuel : Nat)
    (u : Uninit) (scale life report : Nat) :
    (∀ t, Shows env (start env fuel u dir guid scale life report disk) t → Located dir guid t) ∧
    ∀ mediaTs w t, start env fuel u dir guid scale life report disk = .ret mediaTs w →
      Reach (writerStep env) (fun _ _ => True) w t → ∀ id, Located dir guid (atBlock id t) := by
  have hs := start_housed env fuel u scale life report h
  have hI := housed_invariant env dir guid
  refine ⟨fun t ht => ?_, fun mediaTs w t hw hr id => ?_⟩
  · exact (hI.shows (fun e => hs.ret e) (fun e => hs.run e) ht).located
  · have ht : Housed dir guid t := hI.reach (hs.ret hw) hr
    exact Entered.located (Housed.entered (ht.of_eq rfl rfl rfl rfl))

/-- A work directory with one block of the channel `a`, in a directory of the given name. -/
def oneBlock (name : Name) : Tree := ⟨[[name], [name, ['a']]], [([name, ['a'], blockName 1400000000], [0])]⟩

/-- The writer started there, and the path of its next block. -/
def nextPath (name : Name) : Option (Nat × Path) :=
  (start (quiet fun _ => 1400000005) 1 zeroed [] ['a'] 5 100 60 (oneBlock name)).andThen fun _ w =>
    (getFilePathName .none w).andThen fun path _ => some (w.w.currentPieceId, path)

theorem shows_of_nextPath {name : Name} {id : Nat} {path : Path} (h : nextPath name = some (id, path)) :
    ∃ t u, Shows (quiet fun _ => 1400000005)
        (start (quiet fun _ => 1400000005) 1 zeroed [] ['a'] 5 100 60 (oneBlock name)) t ∧
      t.w.currentPieceId = id ∧ getFilePathName .none t = .ret path u := by
  obtain ⟨mediaTs, t, ht, h⟩ := Res.andThen_eq_some h
  obtain ⟨path', u, hu, h⟩ := Res.andThen_eq_some h
  simp only [Option.some.injEq, Prod.mk.injEq] at h
  obtain ⟨rfl, rfl⟩ := h
  exact ⟨t, u, .between ht .start, rfl, hu⟩

theorem blocks_located_oneBlock : ∃ t u path, Shows (quiet fun _ => 1400000005)
      (start (quiet fun _ => 1400000005) 1 zeroed [] ['a'] 5 100 60 (oneBlock (decimal 1400000))) t ∧
    getFilePathName .none t = .ret path u ∧ ServedAt [] ['a'] 1400000005 path := by
  have hn : NewestNamed (oneBlock (decimal 1400000)) [] ['a'] := by
    have hs : (scanDirs (oneBlock (decimal 1400000)) [] ['a']).getLast? =
        some (1400000, ⟨1400000, [decimal 1400000, ['a']]⟩) := by decide +kernel
    rintro e he -
    obtain rfl := Option.some.inj (hs.symm.trans he)
    rfl
  have hp : nextPath (decimal 1400000) = some (1400000005, [decimal 1400000, ['a'], blockName 1400000005]) := by
    decide +kernel
  obtain ⟨t, u, ht, hid, hu⟩ := shows_of_nextPath hp
  have hl := (blocks_located hn (quiet fun _ => 1400000005) 1 zeroed 5 100 60).1 t ht
  rw [Located, hid] at hl
  exact ⟨t, u, _, ht, hu, hl ⟨by decide, by decide⟩ .none _ u hu (List.cons_ne_nil _ _)⟩

/-- A directory that only begins with the number is taken for it. -/
theorem stray_directory_used : ∃ t, Shows (quiet fun _ => 1400000005)
      (start (quiet fun _ => 1400000005) 1 zeroed [] ['a'] 5 100 60
        (oneBlock (decimal 1400000 ++ ['.', 'o', 'l', 'd']))) t ∧ ¬ Located [] ['a'] t := by
  have hp : nextPath (decimal 1400000 ++ ['.', 'o', 'l', 'd']) =
      some (1400000005, [decimal 1400000 ++ ['.', 'o', 'l', 'd'], ['a'], blockName 1400000005]) := by
    decide +kernel
  obtain ⟨t, u, ht, hid, hu⟩ := shows_of_nextPath hp
  refine ⟨t, ht, fun h => ?_⟩
  have h10 : TenDigits t.w.currentPieceId := by rw [hid]; exact ⟨by decide, by decide⟩
  have hpath := (h h10 .none _ u hu (List.cons_ne_nil _ _)).path
  rw [hid, List.nil_append] at hpath
  exact absurd hpath (by decide +kernel)

end XH.Proof.Cutter
