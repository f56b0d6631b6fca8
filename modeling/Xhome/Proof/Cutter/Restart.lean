import Xhome.Proof.Cutter.Disk
import Xhome.Proof.Cutter.Offair

/-!
# Restart

What `Init` makes of a disk that earlier runs have left (`Left`), each stopped at
any point: it goes on behind the last block exactly if the newest directory of
the channel has a block in it (`restart_resumes`). A run stopped between
`create_directories` and its first `rename` leaves that directory empty, and the
next run starts as on an empty disk (`restart_overwrites`).
-/

namespace XH.Proof.Cutter

open XH.Impl.Cutter

/-! ## The scan of the newest directory -/

section
variable {env : Env} {dir : Path} {s : World}

/-- The `.tmp` files of the directory `dir` can be removed. -/
def TmpsGo (env : Env) (d : Tree) (dir : Path) (removes : Nat) : Prop :=
  ∀ i < ((d.filesIn dir).map (·.1)).countP (fun n => extension n = tmpExtension), env.removeThrows (removes + i) = false

/-- Removing a temporary file does not change what the scan finds. -/
theorem scanPieces_remove {d : Tree} {n : Name} (hn : extension n = tmpExtension) :
    scanPieces (d.remove (dir ++ [n])) dir = scanPieces d dir := by
  unfold scanPieces Tree.filesIn Tree.remove
  rw [List.filterMap_filterMap, List.filterMap_filterMap, List.filterMap_filter]
  refine congrArg mapOfList (List.filterMap_congr fun f _ => ?_)
  by_cases hf : f.1 = dir ++ [n]
  · have hx : extension n ≠ blockExtension := by rw [hn]; decide
    simp [hf, hx]
  · simp [hf]

/-- The loop over the names of the directory. -/
theorem removeTmps_apply (env : Env) (dir : Path) :
    ∀ (ns : List Name) (s : World), ∃ ok t, removeTmps env dir ns s = .ret ok t ∧
      (ok = true ↔ ∀ i < ns.countP (fun n => extension n = tmpExtension), env.removeThrows (s.fs.removes + i) = false) ∧
      scanPieces t.fs.disk dir = scanPieces s.fs.disk dir ∧
      ∀ n, extension n ≠ tmpExtension → t.fs.disk.read (dir ++ [n]) = s.fs.disk.read (dir ++ [n])
  | [], s => ⟨true, s, rfl, by simp, rfl, fun _ _ => rfl⟩
  | n :: ns, s => by
    rw [removeTmps]
    by_cases hx : extension n = tmpExtension
    · rw [if_pos hx, List.countP_cons_of_pos (by simpa using hx)]
      let counted : World := { s with fs := { s.fs with removes := s.fs.removes + 1 } }
      cases ht : env.removeThrows s.fs.removes with
      | true =>
        have hr : tryRemove env (dir ++ [n]) s = .ret false counted := by
          rw [tryRemove, Prog.bind_ret (Prog.get_apply s), Prog.bind_ret (Prog.modify_apply _ s), if_pos ht]
          rfl
        refine ⟨false, counted, by rw [Prog.bind_ret hr]; rfl, ?_, rfl, fun _ _ => rfl⟩
        refine ⟨fun h => (by cases h), fun h => ?_⟩
        have := h 0 (Nat.succ_pos _)
        rw [Nat.add_zero, ht] at this
        cases this
      | false =>
        have hr : tryRemove env (dir ++ [n]) s = .ret true (onDisk (·.remove (dir ++ [n])) counted) := by
          rw [tryRemove, Prog.bind_ret (Prog.get_apply s), Prog.bind_ret (Prog.modify_apply _ s),
            if_neg (by rw [ht]; decide)]
          rfl
        obtain ⟨ok, t, he, hok, hs, hrd⟩ := removeTmps_apply env dir ns (onDisk (·.remove (dir ++ [n])) counted)
        refine ⟨ok, t, by rw [Prog.bind_ret hr, if_pos rfl]; exact he, hok.trans ?_, hs.trans (scanPieces_remove hx),
          fun m hm => (hrd m hm).trans (Tree.read_remove fun e => hm ?_)⟩
        rotate_left
        · rw [List.singleton_inj.mp (List.append_cancel_left e)]
          exact hx
        constructor
        · intro h i hi
          cases i with
          | zero => exact ht
          | succ i =>
            rw [show s.fs.removes + (i + 1) = s.fs.removes + 1 + i by omega]
            exact h i (by omega)
        · intro h i hi
          have := h (i + 1) (by omega)
          rwa [show s.fs.removes + (i + 1) = s.fs.removes + 1 + i by omega] at this
    · rw [if_neg hx, List.countP_cons_of_neg (by simpa using hx)]
      exact removeTmps_apply env dir ns s

/-- The files whose removal goes through, the removals of `l` counted from `k` on. -/
def removedPaths (env : Env) : Nat → List PieceFileInfo → List Path
  | _, [] => []
  | k, f :: l => if env.removeThrows k then removedPaths env (k + 1) l else f.path :: removedPaths env (k + 1) l

theorem removedPaths_mem {p : Path} : ∀ {k : Nat} {l : List PieceFileInfo}, p ∈ removedPaths env k l → ∃ f ∈ l, f.path = p
  | _, [], h => by cases h
  | k, f :: l, h => by
    rw [removedPaths] at h
    split at h
    · obtain ⟨g, hg, hp⟩ := removedPaths_mem h
      exact ⟨g, List.mem_cons_of_mem _ hg, hp⟩
    · rcases List.mem_cons.mp h with rfl | h
      · exact ⟨f, List.mem_cons_self, rfl⟩
      · obtain ⟨g, hg, hp⟩ := removedPaths_mem h
        exact ⟨g, List.mem_cons_of_mem _ hg, hp⟩

/-- The removal loop over the queue: what leaves it, and what that does to the disk. -/
theorem dropExpired_apply (env : Env) (expired : PieceFileInfo → Bool) :
    ∀ (l : List PieceFileInfo) {s : World}, s.fs.pieceFileQueue = l →
      ∃ t, dropExpired env expired l s = .ret () t ∧ t.fs.pieceFileQueue = l.dropWhile expired ∧
        ∀ p, t.fs.disk.read p =
          if p ∈ removedPaths env s.fs.removes (l.takeWhile expired) then none else s.fs.disk.read p
  | [], s, h => ⟨s, rfl, h, fun _ => rfl⟩
  | f :: rest, s, h => by
    rw [dropExpired]
    by_cases hf : expired f = true
    · obtain ⟨b, t, ht, hn, hrd⟩ : ∃ b t, tryRemove env f.path s = .ret b t ∧ t.fs.removes = s.fs.removes + 1 ∧
          ∀ p, t.fs.disk.read p =
            if env.removeThrows s.fs.removes = false ∧ p = f.path then none else s.fs.disk.read p := by
        rw [tryRemove, Prog.bind_ret (Prog.get_apply s), Prog.bind_ret (Prog.modify_apply _ s)]
        split
        · rename_i hthrows
          refine ⟨_, _, rfl, rfl, fun p => ?_⟩
          rw [if_neg fun h => by rw [hthrows] at h; exact Bool.noConfusion h.1]
        · rename_i hthrows
          refine ⟨_, _, rfl, rfl, fun p => ?_⟩
          show (s.fs.disk.remove f.path).read p = _
          by_cases hp : p = f.path
          · rw [if_pos ⟨Bool.not_eq_true _ ▸ hthrows, hp⟩, hp, Tree.read_remove_self]
          · rw [if_neg fun h => hp h.2, Tree.read_remove hp]
      rw [if_pos hf, List.dropWhile_cons_of_pos hf, List.takeWhile_cons_of_pos hf, Prog.bind_ret ht,
        Prog.bind_ret (Prog.modify_apply _ t)]
      obtain ⟨v, hv, hq, hrest⟩ := dropExpired_apply env expired rest
        (s := { t with fs := { t.fs with pieceFileQueue := rest } }) rfl
      refine ⟨v, hv, hq, fun p => (hrest p).trans ?_⟩
      show (if p ∈ removedPaths env t.fs.removes (rest.takeWhile expired) then none else t.fs.disk.read p) = _
      rw [hrd p, hn, removedPaths]
      by_cases hm : p ∈ removedPaths env (s.fs.removes + 1) (rest.takeWhile expired)
      · cases env.removeThrows s.fs.removes with
        | true => simp [hm]
        | false => simp [hm]
      · cases env.removeThrows s.fs.removes with
        | true => simp [hm]
        | false => simp [hm]
    · rw [if_neg hf, List.dropWhile_cons_of_neg hf, List.takeWhile_cons_of_neg hf]
      exact ⟨s, rfl, h, fun _ => rfl⟩

/-- The entries of a scan are different files. -/
theorem scanPieces_paths (d : Tree) (dir : Path) : ((scanPieces d dir).map (·.2)).Pairwise (·.path ≠ ·.path) := by
  refine List.pairwise_map.mpr ((ascending_mapOfList _).imp_of_mem fun ha hb hlt he => ?_)
  obtain ⟨n, _, -, -, rfl⟩ := scanPieces_mem ha
  obtain ⟨m, _, -, -, rfl⟩ := scanPieces_mem hb
  have hn : n = m := List.singleton_inj.mp (List.append_cancel_left he)
  rw [hn] at hlt
  exact Nat.lt_irrefl _ hlt

/-- The test of `Remove piece.` in `Init`. -/
def expiredAt (now S life : Nat) (f : PieceFileInfo) : Bool := i32 (sub32 now f.id) - i32 S > i32 life

/-- The queue behind the scan. -/
theorem loadPieces_apply (env : Env) (nowId : Nat) (dir : Path) (s : World) :
    ∃ t, loadPieces env nowId dir s = .ret () t ∧
      (TmpsGo env s.fs.disk dir s.fs.removes → t.fs.pieceFileQueue =
        ((scanPieces s.fs.disk dir).map (·.2)).dropWhile (expiredAt nowId s.w.pieceScale s.w.pieceLifeSpan)) ∧
      (¬ TmpsGo env s.fs.disk dir s.fs.removes → t.fs.pieceFileQueue = []) ∧
      ∀ f ∈ t.fs.pieceFileQueue, t.fs.disk.read f.path = s.fs.disk.read f.path := by
  obtain ⟨ok, t, ht, hok, hs, hrd⟩ := removeTmps_apply env dir ((s.fs.disk.filesIn dir).map (·.1)) s
  have hw : t.w = s.w := congrArg (·.w) ((removeTmps_offRemoval env dir _).ret ht)
  let found : World := { t with fs := { t.fs with
    pieceFileQueue := if ok then (scanPieces t.fs.disk dir).map (·.2) else [] } }
  obtain ⟨u, hu, hq, hkeep⟩ := dropExpired_apply env
    (fun f => i32 (sub32 nowId f.id) - i32 t.w.pieceScale > i32 t.w.pieceLifeSpan) found.fs.pieceFileQueue rfl
  refine ⟨u, ?_, fun hgo => ?_, fun hgo => ?_, fun f hf => ?_⟩
  · rw [loadPieces, Prog.bind_ret (Prog.get_apply s), Prog.bind_ret ht, Prog.bind_ret (Prog.modify_apply _ t)]
    exact hu
  · rw [hq, hw, ← hs]
    show List.dropWhile _ (if ok then _ else []) = _
    rw [if_pos (hok.mpr hgo)]
    rfl
  · rw [hq]
    show List.dropWhile _ (if ok then _ else []) = _
    rw [if_neg fun h => hgo (hok.mp h)]
    rfl
  · rw [hq] at hf
    have hm : f ∈ found.fs.pieceFileQueue := (List.dropWhile_suffix _).mem hf
    have hl : found.fs.pieceFileQueue = if ok then (scanPieces t.fs.disk dir).map (·.2) else [] := rfl
    cases ok with
    | false =>
      rw [hl] at hm
      cases hm
    | true =>
      -- the file is none of the expired ones, and not a temporary one
      have hne := scanPieces_paths t.fs.disk dir
      rw [← show found.fs.pieceFileQueue = (scanPieces t.fs.disk dir).map (·.2) from hl,
        ← List.takeWhile_append_dropWhile (p := fun f => i32 (sub32 nowId f.id) - i32 t.w.pieceScale > i32 t.w.pieceLifeSpan)
          (l := found.fs.pieceFileQueue), List.pairwise_append] at hne
      rw [hkeep f.path, if_neg fun h => ?_]
      rotate_left
      · obtain ⟨g, hg, hp⟩ := removedPaths_mem h
        exact hne.2.2 g hg f hf hp
      rw [hl] at hm
      obtain ⟨e, he, rfl⟩ := List.mem_map.mp hm
      obtain ⟨n, c, -, hx, rfl⟩ := scanPieces_mem he
      exact hrd n (by rw [hx]; decide)

end

/-! ## The last block -/

/-- The newest directory of the channel is that of the number `k`. -/
def Newest (disk : Tree) (dir : Path) (guid : Name) (k : Nat) : Prop :=
  dir ++ [decimal k, guid] ∈ disk.dirs ∧ ∀ k', dir ++ [decimal k', guid] ∈ disk.dirs → k' ≤ k

/-- The block `id` of the channel is on the disk. -/
def OnDisk (disk : Tree) (dir : Path) (guid : Name) (id : Nat) : Prop :=
  ∃ x c, (dir ++ [x, guid, blockName id], c) ∈ disk.files

section
variable {dir : Path} {guid : Name} {limit : Nat} {d : Tree}

theorem blockName_inj {i j : Nat} (h : blockName i = blockName j) : i = j :=
  decimal_inj (List.append_cancel_right h)

/-- Where a block is. -/
theorem Orderly.home (h : Orderly dir guid limit d) {x : Name} {id : Nat} {c : List Byte}
    (hf : (dir ++ [x, guid, blockName id], c) ∈ d.files) :
    x = decimal (id / dirScale) ∧ dir ++ [x, guid] ∈ d.dirs ∧ c ≠ [] ∧ id ≤ limit := by
  obtain ⟨id', hn, hx, hc, hl⟩ := (h.files _ hf).block x _ rfl (extension_blockName id)
  obtain rfl := blockName_inj hn
  exact ⟨hx, (h.files _ hf).parent x _ rfl, hc, hl⟩

theorem Orderly.scanDirs_entry (h : Orderly dir guid limit d) {e : Nat × DirInfo} (he : e ∈ scanDirs d dir guid) :
    ∃ k, k ≠ 0 ∧ dir ++ [decimal k, guid] ∈ d.dirs ∧ e = (k, ⟨k, dir ++ [decimal k, guid]⟩) := by
  obtain ⟨n, -, hh, hk, rfl⟩ := scanDirs_mem he
  obtain ⟨-, k, hlt, rfl⟩ := h.dirs n (h.mem_homes hh)
  rw [blockNumber_decimal hlt] at hk ⊢
  exact ⟨k, hk, h.mem_homes hh, rfl⟩

theorem Orderly.scanDirs_key (h : Orderly dir guid limit d) {k : Nat} (hk : k ≠ 0)
    (hm : dir ++ [decimal k, guid] ∈ d.dirs) : ∃ e ∈ scanDirs d dir guid, e.1 = k := by
  obtain ⟨hp, k', hlt, hk'⟩ := h.dirs _ hm
  obtain rfl := decimal_inj hk'
  have hb : u32OfInt (atoi (stem (decimal k))) = k := blockNumber_decimal hlt
  have hh : d.has (dir ++ [decimal k, guid]) = true := by
    rw [Tree.has, Bool.or_eq_true, List.contains_iff_mem]
    exact .inl hm
  refine key_mem_mapOfList (e := (k, ⟨k, dir ++ [decimal k, guid]⟩)) (List.mem_filterMap.mpr ⟨_, Tree.mem_subdirs.mpr hp, ?_⟩)
  simp only [hb]
  exact if_pos ⟨hk, hh⟩

/-- The directory `Init` enters. -/
theorem Orderly.newest_of_scanDirs (h : Orderly dir guid limit d) {e : DirInfo}
    (he : ((scanDirs d dir guid).map (·.2)).getLast? = some e) :
    ∃ k, k ≠ 0 ∧ Newest d dir guid k ∧ e = ⟨k, dir ++ [decimal k, guid]⟩ := by
  rw [List.getLast?_map] at he
  obtain ⟨a, ha, rfl⟩ := Option.map_eq_some_iff.mp he
  obtain ⟨k, hk, hm, rfl⟩ := h.scanDirs_entry (List.mem_of_getLast? ha)
  refine ⟨k, hk, ⟨hm, fun k' hm' => ?_⟩, rfl⟩
  by_cases hk' : k' = 0
  · omega
  · obtain ⟨b, hb, rfl⟩ := h.scanDirs_key hk' hm'
    exact (ascending_mapOfList _).le_getLast ha hb

theorem Newest.unique {k k' : Nat} (h : Newest d dir guid k) (h' : Newest d dir guid k') : k = k' :=
  Nat.le_antisymm (h'.2 k h.1) (h.2 k' h'.1)

theorem Orderly.no_newest (h : Orderly dir guid limit d)
    (he : ((scanDirs d dir guid).map (·.2)).getLast? = none) {k : Nat} (hk : k ≠ 0) : ¬ Newest d dir guid k := fun hn => by
  obtain ⟨a, ha, -⟩ := h.scanDirs_key hk hn.1
  rw [List.getLast?_eq_none_iff, List.map_eq_nil_iff] at he
  rw [he] at ha
  cases ha

theorem Orderly.scanPieces_entry (h : Orderly dir guid limit d) (hl : limit < 2 ^ 31) {x : Name} {e : Nat × PieceFileInfo}
    (he : e ∈ scanPieces d (dir ++ [x, guid])) :
    ∃ id c, (dir ++ [x, guid, blockName id], c) ∈ d.files ∧ e.1 = id ∧ e.2.id = id ∧ e.2.path = dir ++ [x, guid, blockName id] := by
  obtain ⟨n, c, hf, hx, rfl⟩ := scanPieces_mem he
  rw [List.append_assoc] at hf
  obtain ⟨id, rfl, -, -, hid⟩ := (h.files _ hf).block x n rfl hx
  have hb : blockNumber (blockName id) = id := blockNumber_blockName (by omega)
  exact ⟨id, c, hf, hb, hb, List.append_assoc _ _ _⟩

theorem Orderly.scanPieces_key (h : Orderly dir guid limit d) (hl : limit < 2 ^ 31) {k id : Nat} (hk : k ≠ 0) {c : List Byte}
    (hf : (dir ++ [decimal k, guid, blockName id], c) ∈ d.files) :
    ∃ e ∈ scanPieces d (dir ++ [decimal k, guid]), e.1 = id := by
  obtain ⟨hx, -, hc, hid⟩ := h.home hf
  have h₀ : id ≠ 0 := fun e => hk (by rw [decimal_inj hx, e]; rfl)
  have hb : u32OfInt (atoi (stem (blockName id))) = id := blockNumber_blockName (by omega)
  refine key_mem_mapOfList (e := (id, ⟨id, dir ++ [decimal k, guid] ++ [blockName id], c.length⟩))
    (List.mem_filterMap.mpr ⟨(blockName id, c), Tree.mem_filesIn.mpr (by rw [List.append_assoc]; exact hf), ?_⟩)
  simp only [hb]
  exact if_pos ⟨extension_blockName id, h₀, fun e => hc (List.length_eq_zero_iff.mp e)⟩

/-- The last entry of the scan is the last block of the channel. -/
theorem Orderly.last_block (h : Orderly dir guid limit d) (hl : limit < 2 ^ 31) {k : Nat} (hk : k ≠ 0)
    (hn : Newest d dir guid k) {f : PieceFileInfo}
    (hf : ((scanPieces d (dir ++ [decimal k, guid])).map (·.2)).getLast? = some f) :
    (∃ c, d.read f.path = some c ∧ (dir ++ [decimal k, guid, blockName f.id], c) ∈ d.files ∧
      f.path = dir ++ [decimal k, guid, blockName f.id]) ∧ ∀ id, OnDisk d dir guid id → id ≤ f.id := by
  rw [List.getLast?_map] at hf
  obtain ⟨e, he, rfl⟩ := Option.map_eq_some_iff.mp hf
  obtain ⟨i, c, hc, hk₁, hk₂, hp⟩ := h.scanPieces_entry hl (List.mem_of_getLast? he)
  obtain ⟨c₁, hc₁⟩ := Tree.read_of_mem hc
  refine ⟨⟨c₁, by rw [hp, hc₁], by rw [hk₂]; exact Tree.mem_files_of_read hc₁, by rw [hp, hk₂]⟩, fun id ⟨x, c', hf'⟩ => ?_⟩
  obtain ⟨rfl, hm, -, -⟩ := h.home hf'
  rw [hk₂]
  rcases Nat.eq_or_lt_of_le (hn.2 _ hm) with e' | hlt
  · -- in the same directory
    rw [e'] at hf'
    obtain ⟨a, ha, rfl⟩ := h.scanPieces_key hl hk hf'
    rw [← hk₁]
    exact (ascending_mapOfList _).le_getLast he ha
  · -- in an older one
    have hi : k = i / dirScale := decimal_inj (h.home hc).1
    rw [hi] at hlt
    exact Nat.le_of_lt (Nat.lt_of_div_lt_div hlt)

end

/-! ## `Init` before it fills -/

/-- The queue `Init` finds in the directory of the number `k`. -/
def queueIn (env : Env) (S life : Nat) (disk : Tree) (dir : Path) (guid : Name) (k : Nat) : List PieceFileInfo :=
  ((scanPieces disk (dir ++ [decimal k, guid])).map (·.2)).dropWhile (expiredAt (env.utc 0) S life)

/-- The media time that `Init` reads from a file. -/
def recoveredTs (disk : Tree) (p : Path) : Nat :=
  match disk.read p with
  | some content => getLastTsInPiece content
  | none => 0

/-- The state in which `Init` begins to fill. -/
structure Loaded (env : Env) (S : Nat) (dir : Path) (guid : Name) (t : World) : Prop where
  reads : t.reads = 1
  written : t.fs.written = []
  scale : t.w.pieceScale = S
  multiple : S ∣ t.w.currentPieceId
  near : t.w.currentPieceId ≤ env.utc 0 + 2 ^ 31
  stored : Stored env dir guid t

section
variable {env : Env} {S : Nat} {u : Uninit} {dir : Path} {guid : Name} {life report : Nat} {disk : Tree} {s t : World}

/-- The slot behind a block. -/
theorem next_slot {id : Nat} (hS : ScaleFits S) (hid : id ≤ idLimit (env.utc 0)) :
    u32 (id + S) / S * S ≤ env.utc 0 + 2 ^ 31 ∧ id < u32 (id + S) / S * S ∧
      ∀ id', S ∣ id' → id < id' → u32 (id + S) / S * S ≤ id' := by
  have hS₂ := hS.2
  have hlt := idLimit_lt (env.utc 0)
  have hle : id ≤ env.utc 0 + 2 ^ 30 := hid.trans (Nat.min_le_left _ _)
  rw [u32_of_lt (by omega), Nat.add_div_right _ hS.1]
  have hdm := Nat.div_add_mod id S
  have hmod := Nat.mod_lt id hS.1
  rw [Nat.mul_comm] at hdm
  refine ⟨by rw [Nat.succ_mul]; omega, by rw [Nat.succ_mul]; omega, fun id' hd hlt' => ?_⟩
  obtain ⟨m, rfl⟩ := hd
  rw [Nat.mul_comm S m]
  refine Nat.mul_le_mul_right S (Nat.div_lt_of_lt_mul hlt')

theorem stored_scanned (ho : Orderly dir guid (idLimit (env.utc 0)) disk)
    (hq : ∀ e, ((scanDirs disk dir guid).map (·.2)).getLast? = some e → t.fs.filePath = e.path)
    (ht : t = scanned env (construct u dir guid S life report disk) ∨
      ∃ d, t = opened d (scanned env (construct u dir guid S life report disk))) : Stored env dir guid t := by
  have hdir : (dir ++ [guid]).dropLast = dir := List.dropLast_concat
  have hcur : ∀ e, ((scanDirs disk (dir ++ [guid]).dropLast guid).map (·.2)).getLast? = some e →
      t.fs.filePath = dir ++ [decimal e.id, guid] ∧ dir ++ [decimal e.id, guid] ∈ disk.dirs := fun e he => by
    rw [hdir] at he
    rw [hq e he]
    obtain ⟨k, -, hn, rfl⟩ := ho.newest_of_scanDirs he
    exact ⟨rfl, hn.1⟩
  rcases ht with rfl | ⟨d, rfl⟩
  · exact ⟨⟨fun d hd => by rw [List.mem_singleton.mp hd]; exact ho, fun _ h => by cases h⟩, hdir, rfl, ho, hcur⟩
  · exact ⟨⟨fun d hd => by rw [List.mem_singleton.mp hd]; exact ho, fun _ h => by cases h⟩, hdir, rfl, ho, hcur⟩

/-- Up to its loop `Init` returns, with the id behind the last block found and
the media time read from it, or with 0. -/
theorem init_loaded (u : Uninit) (life report : Nat) (hS : ScaleFits S) (ho : Orderly dir guid (idLimit (env.utc 0)) disk) :
    ∃ ts t, (∀ fuel, init env fuel 0 (construct u dir guid S life report disk) =
        (do fillLoop env (env.utc 0) fuel; pure ts : Prog World Nat) t) ∧ Loaded env S dir guid t ∧
      (((ts = 0 ∧ t.w.currentPieceId = 0) ∧ ∀ k, k ≠ 0 → Newest disk dir guid k → TmpsGo env disk (dir ++ [decimal k, guid]) 0 →
          queueIn env S (blockLifeSpan life) disk dir guid k = []) ∨
        ∃ k f, k ≠ 0 ∧ Newest disk dir guid k ∧ TmpsGo env disk (dir ++ [decimal k, guid]) 0 ∧
          (queueIn env S (blockLifeSpan life) disk dir guid k).getLast? = some f ∧
          ts = recoveredTs disk f.path ∧ t.w.currentPieceId = u32 (f.id + S) / S * S) := by
  have hdirs : (scanned env (construct u dir guid S life report disk)).fs.dirQueue = (scanDirs disk dir guid).map (·.2) := by
    show (scanDirs disk (dir ++ [guid]).dropLast guid).map (·.2) = _
    rw [List.dropLast_concat]
  cases hl : ((scanDirs disk dir guid).map (·.2)).getLast? with
  | none =>
    refine ⟨0, scanned env (construct u dir guid S life report disk), fun fuel => init_of_none (by rw [hdirs]; exact hl),
      ⟨rfl, rfl, rfl, Nat.dvd_zero S, Nat.zero_le _, stored_scanned ho (fun e he => by rw [hl] at he; cases he) (.inl rfl)⟩,
      .inl ⟨⟨rfl, rfl⟩, fun k hk hn => absurd hn (ho.no_newest hl hk)⟩⟩
  | some e =>
    obtain ⟨k, hk, hn, rfl⟩ := ho.newest_of_scanDirs hl
    have hst : Stored env dir guid (opened ⟨k, dir ++ [decimal k, guid]⟩ (scanned env (construct u dir guid S life report disk))) :=
      stored_scanned ho (fun e he => by rw [hl] at he; cases he; rfl) (.inr ⟨_, rfl⟩)
    obtain ⟨t, ht, hgo, hstuck, hread⟩ := loadPieces_apply env (env.utc 0) (dir ++ [decimal k, guid])
      (opened ⟨k, dir ++ [decimal k, guid]⟩ (scanned env (construct u dir guid S life report disk)))
    have hoff := (loadPieces_offRemoval env _ _).ret ht
    have hts : Stored env dir guid t := hst.shrinks hoff ((loadPieces_moves (shrinks_removal env) _ _ _).ret ht)
    have hr : t.reads = 1 := congrArg (·.reads) hoff
    have hb : t.fs.written = [] := congrArg (·.fs.written) hoff
    have hsc : t.w.pieceScale = S := congrArg (·.w.pieceScale) hoff
    have hid : t.w.currentPieceId = 0 := congrArg (·.w.currentPieceId) hoff
    have heq : ∀ {ts : Nat} {v : World}, resumePieces 0 t = .ret ts v → ∀ fuel,
        init env fuel 0 (construct u dir guid S life report disk) =
          (do fillLoop env (env.utc 0) fuel; pure ts : Prog World Nat) v := fun hv fuel =>
      (init_of_some (by rw [hdirs]; exact hl)).trans ((Prog.bind_ret ht).trans (Prog.bind_ret hv))
    rcases resumePieces_apply 0 t with ⟨f, hf, hv⟩ | ⟨hq, hv⟩
    · have hgo' : TmpsGo env disk (dir ++ [decimal k, guid]) 0 := not_not.mp fun h => by
        rw [hstuck h] at hf
        cases hf
      have hts' : (resumed f t).w.curMediaTs = recoveredTs disk f.path := by
        show (match t.fs.disk.read f.path with | some content => getLastTsInPiece content | none => 0) = _
        rw [hread f (List.mem_of_getLast? hf)]
        rfl
      rw [hgo hgo'] at hf
      have hlast : (queueIn env S (blockLifeSpan life) disk dir guid k).getLast? = some f := hf
      have hfile : ∃ id ≤ idLimit (env.utc 0), f.id = id := by
        have hm := (List.dropWhile_suffix _).mem (List.mem_of_getLast? hf)
        obtain ⟨e, he, rfl⟩ := List.mem_map.mp hm
        obtain ⟨id, c, hc, -, hid, -⟩ := ho.scanPieces_entry (idLimit_lt _) he
        exact ⟨id, (ho.home hc).2.2.2, hid⟩
      obtain ⟨_, hle, rfl⟩ := hfile
      have hcur : (resumed f t).w.currentPieceId = u32 (f.id + S) / S * S := by
        show u32 (f.id + t.w.pieceScale) / t.w.pieceScale * t.w.pieceScale = _
        rw [hsc]
      refine ⟨_, resumed f t, heq hv, ⟨hr, hb, hsc, by rw [hcur]; exact Nat.dvd_mul_left _ _, ?_,
        hts.of_eq rfl rfl rfl le_rfl⟩, .inr ⟨k, f, hk, hn, hgo', hlast, hts', hcur⟩⟩
      rw [hcur]
      exact (next_slot hS hle).1
    · refine ⟨0, t, heq hv, ⟨hr, hb, hsc, by rw [hid]; exact Nat.dvd_zero S, by rw [hid]; exact Nat.zero_le _, hts⟩,
        .inl ⟨⟨rfl, hid⟩, fun k' hk' hn' hgo' => ?_⟩⟩
      obtain rfl := hn.unique hn'
      rw [hgo hgo'] at hq
      exact hq

theorem Loaded.now (h : Loaded env S dir guid t) : t.now env = env.utc 0 := by rw [World.now, h.reads]

theorem Loaded.timeline (h : Loaded env S dir guid t) : Timeline env S none t :=
  .fresh h.scale h.multiple (by rw [h.now]; exact h.near) h.written

/-- The timeline goes on behind the last block found. -/
theorem Loaded.timeline_from (h : Loaded env S dir guid t) (h₀ : 0 < t.w.currentPieceId) :
    Timeline env S (some t.w.currentPieceId) t := by
  have ht := h.timeline
  refine ⟨ht.scale, ht.multiple, ht.near, ht.next, fun a ha => ?_, ht.dated⟩
  cases ha
  exact ⟨h₀, by rw [h.written]; rfl⟩

/-- `Add absent pieces.` -/
theorem Loaded.fill {I P J : World → Prop} (hI : Invariant env I P J) (h : Loaded env S dir guid t) (ht : I t) (fuel ts : Nat) :
    WP (do fillLoop env (env.utc 0) fuel; pure ts : Prog World Nat) t
      (fun _ w => I w ∧ w.now env = env.utc 0 ∧ ¬ (w.w.currentPieceId ≠ 0 ∧ w.w.slotsBehind (env.utc 0) > 0)) J := by
  have hf := hI.fill fuel ht
  rw [h.now] at hf
  exact .seq hf fun _ w hw => .pure ⟨hw.1.1, hw.1.2, hw.2⟩

/-- Without faults `Init` returns. -/
theorem start_returns (hc : Steady env) (hf : Faultless env) (hS : ScaleFits S) (u : Uninit) (life report : Nat)
    (ho : Orderly dir guid (idLimit (env.utc 0)) disk) :
    ∃ n, ∀ fuel, n ≤ fuel → ∃ mediaTs w, start env fuel u dir guid S life report disk = .ret mediaTs w := by
  obtain ⟨ts, v, heq, hv, -⟩ := init_loaded u life report hS ho
  refine ⟨v.now env - v.w.currentPieceId + 1, fun fuel hle => ?_⟩
  obtain ⟨x, hx⟩ := fillLoop_ret hc hf hS fuel hv.timeline hle
  rw [hv.now] at hx
  exact ⟨ts, x, (heq fuel).trans (Prog.bind_ret hx)⟩

/-! ## Runs one after the other -/

/-- A disk without anything of the channel. -/
structure Unused (dir : Path) (guid : Name) (d : Tree) : Prop where
  dirs : ∀ x, dir ++ [x, guid] ∉ d.dirs
  files : ∀ f ∈ d.files, (∀ k, f.1 ≠ dir ++ [decimal k]) ∧ ∀ x l, f.1 ≠ dir ++ x :: guid :: l

/-- The disks that can be found at the time `T`: unused ones, and those that a
run leaves which found such a disk and was stopped anywhere. -/
inductive Left (dir : Path) (guid : Name) : Nat → Tree → Prop
  | unused {d : Tree} : Unused dir guid d → Left dir guid 0 d
  | stopped {T : Nat} {disk d : Tree} {env : Env} {S fuel : Nat} {u : Uninit} {life report : Nat} {t : World} :
    Left dir guid T disk → Steady env → ScaleFits S → IdsFit env S → T ≤ env.utc 0 →
    Shows env (start env fuel u dir guid S life report disk) t → d ∈ t.fs.history → Left dir guid (t.now env) d

/-- All states of a run on an orderly disk. -/
theorem shows_stored (hc : Steady env) (hS : ScaleFits S) (hi : IdsFit env S)
    (ho : Orderly dir guid (idLimit (env.utc 0)) disk) {fuel : Nat}
    (h : Shows env (start env fuel u dir guid S life report disk) t) : Traced env dir guid t := by
  obtain ⟨ts, v, heq, hv, -⟩ := init_loaded u life report hS ho
  have hI : Invariant env (fun s => Timeline env S none s ∧ Stored env dir guid s)
    (fun s => Passed env S none s ∧ Stored env dir guid s) (fun s => Timed env S none s ∧ Traced env dir guid s) :=
    stored_invariant hc hS hi
  have hw := hv.fill hI ⟨hv.timeline, hv.stored⟩ fuel ts
  have hr : start env fuel u dir guid S life report disk = _ := heq fuel
  rw [hr] at h
  exact (hI.shows (fun e => (hw.ret e).1) (fun e => hw.run e) h).2

theorem Left.orderly {T : Nat} (h : Left dir guid T disk) : Orderly dir guid (idLimit T) disk := by
  induction h with
  | unused hu =>
    refine ⟨fun x hx => absurd hx (hu.dirs x), fun f hf => ?_⟩
    obtain ⟨h₁, h₂⟩ := hu.files f hf
    exact ⟨h₁, fun x => h₂ x [], fun x n e => absurd e (h₂ x [n]), fun x n e => absurd e (h₂ x [n])⟩
  | stopped _ hc hS hi hT hs hd ih => exact (shows_stored hc hS hi (ih.mono (idLimit_mono hT)) hs).history _ hd

/-! ## What a restart does -/

/-- The newest directory of the channel has a block in it, and its temporary
files can be removed. -/
def Resumable (env : Env) (disk : Tree) (dir : Path) (guid : Name) : Prop :=
  ∃ k id c, k ≠ 0 ∧ Newest disk dir guid k ∧ (dir ++ [decimal k, guid, blockName id], c) ∈ disk.files ∧
    TmpsGo env disk (dir ++ [decimal k, guid]) 0

/-- Behind `Init`: the next slot is behind all blocks on the disk, and those that
have elapsed by `now` have a block. -/
structure Resumed (S : Nat) (dir : Path) (guid : Name) (disk : Tree) (now : Nat) (w : World) : Prop where
  multiple : S ∣ w.w.currentPieceId
  behind : ∀ id, OnDisk disk dir guid id → id < w.w.currentPieceId
  filled : ∀ id, S ∣ id → (∀ id', OnDisk disk dir guid id' → id' < id) → id + S ≤ now → id ∈ w.fs.written.map (·.id)

/-- The blocks of a run go on where those on the disk end. -/
structure Continues (env : Env) (S : Nat) (dir : Path) (guid : Name) (disk : Tree) (t : World) : Prop where
  fresh : ∀ b ∈ t.fs.written, (∀ id, OnDisk disk dir guid id → id < b.id) ∧ ∀ c, (b.path, c) ∉ disk.files
  once : Faultless env → (t.fs.written.map (·.id)).Nodup
  gapless : ∀ b ∈ t.fs.written, ∀ id, S ∣ id → (∀ id', OnDisk disk dir guid id' → id' < id) → id ≤ b.id →
    id ∈ t.fs.written.map (·.id)

/-- A later block expires later. -/
theorem expiredAt_mono {now S life : Nat} {f : PieceFileInfo} {id : Nat} (hn : now < 2 ^ 31) (hle : id ≤ f.id)
    (hf : f.id < 2 ^ 31) (h : ¬ i32 (sub32 now id) - i32 S > i32 life) : expiredAt now S life f = false := by
  have h₁ : i32 (sub32 now id) = (now : Int) - id := i32_sub32 (by omega) (by omega) (by omega) (by omega)
  have h₂ : i32 (sub32 now f.id) = (now : Int) - f.id := i32_sub32 (by omega) (by omega) (by omega) (by omega)
  rw [expiredAt, decide_eq_false_iff_not, h₂]
  rw [h₁] at h
  omega

/-- Whether the last block is found. -/
theorem queueIn_getLast {k : Nat} {f : PieceFileInfo} (h : (queueIn env S life disk dir guid k).getLast? = some f) :
    ((scanPieces disk (dir ++ [decimal k, guid])).map (·.2)).getLast? = some f := by
  obtain ⟨l, hl⟩ := List.dropWhile_suffix (expiredAt (env.utc 0) S life)
    (l := (scanPieces disk (dir ++ [decimal k, guid])).map (·.2))
  have h' : (List.dropWhile (expiredAt (env.utc 0) S life)
    ((scanPieces disk (dir ++ [decimal k, guid])).map (·.2))).getLast? = some f := h
  rw [← hl, List.getLast?_append, h']
  rfl

theorem resumable_of_found (ho : Orderly dir guid (idLimit (env.utc 0)) disk) {k : Nat} (hk : k ≠ 0)
    (hn : Newest disk dir guid k) (hgo : TmpsGo env disk (dir ++ [decimal k, guid]) 0) {f : PieceFileInfo}
    (hf : (queueIn env S life disk dir guid k).getLast? = some f) : Resumable env disk dir guid := by
  obtain ⟨⟨c, -, hc, -⟩, -⟩ := ho.last_block (idLimit_lt _) hk hn (queueIn_getLast hf)
  exact ⟨k, f.id, c, hk, hn, hc, hgo⟩

/-- With a block that has not expired on the disk, the queue is not empty. -/
theorem queueIn_ne_nil (hc : Steady env) (ho : Orderly dir guid (idLimit (env.utc 0)) disk) {k id : Nat} (hk : k ≠ 0)
    (hn : Newest disk dir guid k) {c : List Byte} (hf : (dir ++ [decimal k, guid, blockName id], c) ∈ disk.files)
    {live : Nat} (hl : OnDisk disk dir guid live) (he : ¬ i32 (sub32 (env.utc 0) live) - i32 S > i32 life) :
    queueIn env S life disk dir guid k ≠ [] := fun hq => by
  obtain ⟨e, he', -⟩ := ho.scanPieces_key (idLimit_lt _) hk hf
  cases hlast : ((scanPieces disk (dir ++ [decimal k, guid])).map (·.2)).getLast? with
  | none =>
    rw [List.getLast?_eq_none_iff, List.map_eq_nil_iff] at hlast
    rw [hlast] at he'
    cases he'
  | some f =>
    obtain ⟨⟨c', -, hc', -⟩, hmax⟩ := ho.last_block (idLimit_lt _) hk hn hlast
    have hid : f.id < 2 ^ 31 := Nat.lt_of_le_of_lt (ho.home hc').2.2.2 (idLimit_lt _)
    have hne := expiredAt_mono (hc.lt 0) (hmax live hl) hid he
    have := List.dropWhile_eq_nil_iff.mp hq f (List.mem_of_getLast? hlast)
    rw [hne] at this
    cases this

/-- Without a next id there is nothing to fill. -/
theorem fillLoop_of_zero {now fuel : Nat} (h₀ : s.w.currentPieceId = 0) (h : fillLoop env now fuel s = .ret () t) : t = s := by
  cases fuel with
  | zero => cases h
  | succ fuel =>
    rw [fillLoop, Prog.bind_ret (Prog.get_apply s), if_neg fun hn => hn.1 h₀] at h
    cases h
    rfl

/-- With the last block found, the run goes on behind it. -/
theorem resumed_of_found (hc : Steady env) (hS : ScaleFits S) (hi : IdsFit env S)
    (ho : Orderly dir guid (idLimit (env.utc 0)) disk) (hv : Loaded env S dir guid s) {k : Nat} {f : PieceFileInfo} (hk : k ≠ 0)
    (hn : Newest disk dir guid k) (hf : (queueIn env S life disk dir guid k).getLast? = some f)
    (hcur : s.w.currentPieceId = u32 (f.id + S) / S * S) {r : Res World Nat} {fuel ts : Nat}
    (hr : r = (do fillLoop env (env.utc 0) fuel; pure ts : Prog World Nat) s) :
    (∀ {mediaTs w}, r = .ret mediaTs w → Resumed S dir guid disk (env.utc 0) w) ∧
      ∀ {t}, Shows env r t → Continues env S dir guid disk t := by
  obtain ⟨⟨c, -, hc', -⟩, hmax⟩ := ho.last_block (idLimit_lt _) hk hn (queueIn_getLast hf)
  obtain ⟨-, hlt, hleast⟩ := next_slot hS (ho.home hc').2.2.2
  rw [← hcur] at hlt hleast
  -- the slots behind the last block begin with the one the run begins with
  have hfirst : ∀ {id : Nat}, S ∣ id → (∀ id', OnDisk disk dir guid id' → id' < id) → s.w.currentPieceId ≤ id :=
    fun hd hb => hleast _ hd (hb _ ⟨_, _, hc'⟩)
  have hI : Invariant env (fun t => Timeline env S (some s.w.currentPieceId) t ∧ Stored env dir guid t)
      (fun t => Passed env S (some s.w.currentPieceId) t ∧ Stored env dir guid t)
      (fun t => Timed env S (some s.w.currentPieceId) t ∧ Traced env dir guid t) := stored_invariant hc hS hi
  have hw := hv.fill hI ⟨hv.timeline_from (by omega), hv.stored⟩ fuel ts
  refine ⟨fun {mediaTs w} e => ?_, fun {t} ht => ?_⟩
  · obtain ⟨⟨hT, -⟩, hnow, hdone⟩ := hw.ret (hr.symm.trans e)
    have hle : s.w.currentPieceId ≤ w.w.currentPieceId :=
      hT.next.head_le hS.1 (hT.head _ rfl).2 (List.mem_append_right _ (List.mem_singleton_self _))
    refine ⟨hT.multiple, fun id hid => ?_, fun id hd hb hid => ?_⟩
    · have := hmax id hid
      omega
    · rw [← hnow] at hdone hid
      have hlast := mt (hT.behind_iff hc hS).mpr fun hb => hdone ⟨by omega, hb⟩
      exact hT.mem_ids hS rfl (hfirst hd hb) hd (by omega)
  · rw [hr] at ht
    obtain ⟨hT, hP⟩ := hI.shows (fun e => (hw.ret e).1) (fun e => hw.run e) ht
    have hfresh : ∀ b ∈ t.fs.written, ∀ id, OnDisk disk dir guid id → id < b.id := fun b hb id hid => by
      have := hmax id hid
      have := (hT.gapless _ rfl b hb).1
      omega
    refine ⟨fun b hb => ⟨hfresh b hb, fun c hm => ?_⟩, fun hF => (hT.ids hF).nodup hS.1, fun b hb id hd hall hle => ?_⟩
    · rw [hP.paths b hb, homeOf, List.append_assoc] at hm
      exact Nat.lt_irrefl _ (hfresh b hb b.id ⟨_, _, hm⟩)
    · exact (hT.gapless _ rfl b hb).2 id hd (hfirst hd hall) hle

end

/-- On every disk that earlier runs can leave, with a block on it that has not
expired: `Init` returns, and the run goes on behind the blocks of the disk,
without a gap and without overwriting one, exactly if the newest directory has a
block in it. -/
theorem restart_resumes {env : Env} {S : Nat} (hc : Steady env) (hS : ScaleFits S) (hi : IdsFit env S) {dir : Path}
    {guid : Name} {T : Nat} {disk : Tree} (hd : Left dir guid T disk) (hT : T ≤ env.utc 0) (u : Uninit) {life : Nat}
    (report : Nat) (hlive : ∃ id, OnDisk disk dir guid id ∧ ¬ i32 (sub32 (env.utc 0) id) - i32 S > i32 (blockLifeSpan life)) :
    (Faultless env → ∃ n, ∀ fuel, n ≤ fuel → ∃ mediaTs w, start env fuel u dir guid S life report disk = .ret mediaTs w) ∧
    ∀ fuel mediaTs w, start env fuel u dir guid S life report disk = .ret mediaTs w →
      ((Resumed S dir guid disk (env.utc 0) w ∧
          ∀ t, Shows env (start env fuel u dir guid S life report disk) t → Continues env S dir guid disk t) ↔
        Resumable env disk dir guid) := by
  have ho : Orderly dir guid (idLimit (env.utc 0)) disk := hd.orderly.mono (idLimit_mono hT)
  obtain ⟨live, hl, he⟩ := hlive
  obtain ⟨ts, v, heq, hv, hcur⟩ := init_loaded u life report hS ho
  refine ⟨fun hf => start_returns hc hf hS u life report ho, fun fuel mediaTs w hw => ⟨fun hr => ?_, fun hr => ?_⟩⟩
  · rcases hcur with ⟨⟨-, h₀⟩, -⟩ | ⟨k, f, hk, hn, hgo, hf, -⟩
    · obtain ⟨_, x, hx, hp⟩ := Prog.ret_of_bind ((heq fuel).symm.trans hw)
      obtain rfl := fillLoop_of_zero h₀ hx
      cases hp
      have := hr.1.behind live hl
      omega
    · exact resumable_of_found ho hk hn hgo hf
  · obtain ⟨k, id, c, hk, hn, hf, hgo⟩ := hr
    rcases hcur with ⟨-, hnone⟩ | ⟨k', f, hk', hn', -, hf', -, hid⟩
    · exact absurd (hnone k hk hn hgo) (queueIn_ne_nil hc ho hk hn hf hl he)
    · obtain ⟨h₁, h₂⟩ := resumed_of_found hc hS hi ho hv hk' hn' hf' hid (heq fuel)
      exact ⟨h₁ hw, fun t ht => h₂ ht⟩

/-- A run at the time 1999 that writes the blocks 1999 and 2000. -/
def twoBlocks : Option World :=
  (start (quiet fun _ => 1999) 1 zeroed [] ['g'] 1 100 60 ⟨[], []⟩).andThen fun _ w =>
    runEvents (writerStep (quiet fun _ => 1999)) w
      [.msg 2 (.writePiece true [flvHeader] 0 0), .msg 2 (.writePiece false [] 0 0), .msg 2 (.writePiece false [] 0 0)]

theorem steady_const {n : Nat} (h : n < 2 ^ 31) : Steady (quiet fun _ => n) := ⟨fun _ => le_rfl, fun _ => h⟩

/-- The disk at any point of that run. -/
theorem left_twoBlocks {t : World} (h : twoBlocks = some t) {d : Tree} (hd : d ∈ t.fs.history) : Left [] ['g'] 1999 d :=
  .stopped (.unused ⟨fun _ h => (by cases h), fun _ h => (by cases h)⟩) (steady_const (by decide))
    ⟨by decide, by decide⟩ (fun _ => show 1999 + 1 < 2 ^ 31 by decide) (Nat.zero_le _) (.of_runEvents h) hd

/-- The run comes to its end, and the next one starts at 2005. -/
theorem restart_resumes_twoBlocks :
    ∃ disk mediaTs w, Left [] ['g'] 1999 disk ∧ OnDisk disk [] ['g'] 1999 ∧
      start (quiet fun _ => 2005) 6 zeroed [] ['g'] 1 100 60 disk = .ret mediaTs w ∧
      w.fs.written.map (·.id) = [2001, 2002, 2003, 2004] ∧ Resumed 1 [] ['g'] disk 2005 w := by
  have h : (twoBlocks.bind fun t => t.fs.history.getLast?.bind fun d =>
      (start (quiet fun _ => 2005) 6 zeroed [] ['g'] 1 100 60 d).andThen fun _ w =>
        some (d.dirs, d.files.map (·.1), w.fs.written.map (·.id))) =
      some ([[decimal 1], [decimal 1, ['g']], [decimal 2], [decimal 2, ['g']]],
        [[decimal 2, ['g'], blockName 2000], [decimal 1, ['g'], blockName 1999]], [2001, 2002, 2003, 2004]) := by
    decide +kernel
  obtain ⟨t, ht, h⟩ := Option.bind_eq_some_iff.mp h
  obtain ⟨disk, hd, h⟩ := Option.bind_eq_some_iff.mp h
  obtain ⟨mediaTs, w, hw, h⟩ := Res.andThen_eq_some h
  simp only [Option.some.injEq, Prod.mk.injEq] at h
  have hleft : Left [] ['g'] 1999 disk := left_twoBlocks ht (List.mem_of_getLast? hd)
  have hfile : ∀ p ∈ disk.files.map (·.1), ∃ c, (p, c) ∈ disk.files := fun p hp => by
    obtain ⟨f, hf, rfl⟩ := List.mem_map.mp hp
    exact ⟨f.2, hf⟩
  obtain ⟨c₁, hc₁⟩ := hfile [decimal 2, ['g'], blockName 2000] (by rw [h.2.1]; exact List.mem_cons_self)
  obtain ⟨c₂, hc₂⟩ := hfile [decimal 1, ['g'], blockName 1999] (by rw [h.2.1]; exact List.mem_cons_of_mem _ List.mem_cons_self)
  have hnew : Newest disk [] ['g'] 2 := by
    refine ⟨by rw [h.1]; simp, fun k hk => ?_⟩
    rw [h.1] at hk
    simp only [List.nil_append, List.mem_cons, List.cons.injEq, List.not_mem_nil, or_false, and_true, and_false, false_or,
      reduceCtorEq] at hk
    rcases hk with e | e
    · rw [decimal_inj e]; decide
    · rw [decimal_inj e]
  have hr := (restart_resumes (steady_const (by decide)) ⟨by decide, by decide⟩ (fun _ => show 2005 + 1 < 2 ^ 31 by decide) hleft
    (by decide) zeroed 60 ⟨1999, ⟨_, _, hc₂⟩, by decide⟩).2 6 mediaTs w hw
  exact ⟨disk, mediaTs, w, hleft, ⟨_, _, hc₂⟩, hw, h.2.2,
    (hr.mpr ⟨2, 2000, c₁, by decide, hnew, hc₁, fun _ _ => rfl⟩).1⟩

/-- The run is stopped when the directory of the block 2000 has been created. The
next run starts with no id and overwrites the block 1999. -/
theorem restart_overwrites :
    ∃ disk mediaTs w, Left [] ['g'] 1999 disk ∧ OnDisk disk [] ['g'] 1999 ∧
      start (quiet fun _ => 1999) 1 zeroed [] ['g'] 1 100 60 disk = .ret mediaTs w ∧ w.w.currentPieceId = 0 ∧
      ¬ Resumed 1 [] ['g'] disk 1999 w ∧
      ∃ t, Shows (quiet fun _ => 1999) (start (quiet fun _ => 1999) 1 zeroed [] ['g'] 1 100 60 disk) t ∧
        ∃ b ∈ t.fs.written, ∃ c, (b.path, c) ∈ disk.files := by
  have h : (twoBlocks.bind fun t => t.fs.history[7]?.bind fun d =>
      (start (quiet fun _ => 1999) 1 zeroed [] ['g'] 1 100 60 d).andThen fun _ w =>
        (runEvents (writerStep (quiet fun _ => 1999)) w
          [.msg 2 (.writePiece true [flvHeader] 0 0), .msg 2 (.writePiece false [] 0 0)]).map fun t =>
            (d.files.map (·.1), w.w.currentPieceId, t.fs.written.map (·.path))) =
      some ([[decimal 1, ['g'], blockName 1999]], 0, [[decimal 1, ['g'], blockName 1999]]) := by
    decide +kernel
  obtain ⟨t, ht, h⟩ := Option.bind_eq_some_iff.mp h
  obtain ⟨disk, hd, h⟩ := Option.bind_eq_some_iff.mp h
  obtain ⟨mediaTs, w, hw, h⟩ := Res.andThen_eq_some h
  obtain ⟨t', ht', h⟩ := Option.map_eq_some_iff.mp h
  simp only [Prod.mk.injEq] at h
  have hm : [decimal 1, ['g'], blockName 1999] ∈ disk.files.map (·.1) := by rw [h.1]; exact List.mem_cons_self
  obtain ⟨⟨p, c⟩, hc, rfl⟩ := List.mem_map.mp hm
  have hb : [decimal 1, ['g'], blockName 1999] ∈ t'.fs.written.map (·.path) := by rw [h.2.2]; exact List.mem_cons_self
  obtain ⟨b, hb, hp⟩ := List.mem_map.mp hb
  have hon : OnDisk disk [] ['g'] 1999 := ⟨_, c, hc⟩
  refine ⟨disk, mediaTs, w, left_twoBlocks ht (List.mem_of_getElem? hd), hon, hw, h.2.1, fun hr => ?_, t',
    .between hw (.of_runIf ht'), b, hb, c, by rw [hp]; exact hc⟩
  have := hr.behind 1999 hon
  rw [h.2.1] at this
  exact Nat.not_lt_zero _ this

end XH.Proof.Cutter
