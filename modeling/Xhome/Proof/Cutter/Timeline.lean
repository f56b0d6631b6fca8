import Xhome.Framework.Progression
import Xhome.Proof.Cutter.Rules

/-!
# The timeline of a run

With a clock that does not go back, every write successful and `piece_scale_` at
most `2^30`, the casts of the guards and of the fill loops give the true
differences (`Timeline.behind_iff`). The next id is never far ahead of the clock
(`Timeline`), so the ids of the blocks are an arithmetic progression
(`timeline_progression`). `piece_scale_` comes from the command line unchecked;
beyond that bound ids wrap (`ids_wrap`).
-/

namespace XH.Proof.Cutter

open XH.Impl.Cutter

/-- The clock does not go back and stays below `2^31`. -/
structure Steady (env : Env) : Prop where
  mono : ∀ {i j : Nat}, i ≤ j → env.utc i ≤ env.utc j
  lt : ∀ i, env.utc i < 2 ^ 31

/-- Every file write succeeds. -/
def Faultless (env : Env) : Prop := ∀ n, env.faults n = .none

/-- The values of `piece_scale_` for which nothing wraps. -/
def ScaleFits (S : Nat) : Prop := 0 < S ∧ S ≤ 2 ^ 30

def isSpecial : BlockKind → Bool
  | .special _ => true
  | .normal _ _ => false

/-- The slot of a block, against the clock at its writing. -/
structure Dated (S : Nat) (b : Written) : Prop where
  multiple : S ∣ b.id
  notAhead : b.id ≤ b.now + S
  elapsed : isSpecial b.kind = true → b.id + S ≤ b.now

/-- What holds of the blocks at any time; `first` is the id of the first block,
if it is known. -/
structure Timed (env : Env) (S : Nat) (first : Option Nat) (s : World) : Prop where
  ids : Faultless env → Progression S (s.fs.written.map (·.id))
  dated : ∀ b ∈ s.fs.written, Dated S b
  gapless : ∀ a ∈ first, ∀ b ∈ s.fs.written,
    a ≤ b.id ∧ ∀ id, S ∣ id → a ≤ id → id ≤ b.id → id ∈ s.fs.written.map (·.id)

/-- The next slot, against the blocks and the clock. -/
structure Timeline (env : Env) (S : Nat) (first : Option Nat) (s : World) : Prop where
  scale : s.w.pieceScale = S
  multiple : S ∣ s.w.currentPieceId
  near : s.w.currentPieceId ≤ s.now env + 2 ^ 31
  next : Progression S (s.fs.written.map (·.id) ++ [s.w.currentPieceId])
  head : ∀ a ∈ first, 0 < a ∧ (s.fs.written.map (·.id) ++ [s.w.currentPieceId]).head? = some a
  dated : ∀ b ∈ s.fs.written, Dated S b

/-- A piece may be written into the next slot. -/
structure Passed (env : Env) (S : Nat) (first : Option Nat) (s : World) : Prop extends Timeline env S first s where
  notAhead : s.w.currentPieceId ≤ s.now env + S

section
variable {env : Env} {S : Nat} {first : Option Nat} {s t : World}

/-- The first id is a multiple too. -/
theorem Timeline.dvd_first (h : Timeline env S first s) {a : Nat} (ha : a ∈ first) : S ∣ a := by
  have hm := List.mem_of_head? (h.head a ha).2
  rcases List.mem_append.mp hm with hm | hm
  · obtain ⟨b, hb, rfl⟩ := List.mem_map.mp hm
    exact (h.dated b hb).multiple
  · rw [List.mem_singleton.mp hm]; exact h.multiple

/-- Every slot from the first on up to the next has a block. -/
theorem Timeline.mem_ids (h : Timeline env S first s) (hS : ScaleFits S) {a id : Nat} (ha : a ∈ first) (hle : a ≤ id)
    (hdvd : S ∣ id) (hlt : id < s.w.currentPieceId) : id ∈ s.fs.written.map (·.id) :=
  h.next.mem_of_lt hS.1 (h.head a ha).2 hle (Nat.dvd_sub hdvd (h.dvd_first ha)) hlt

theorem Timeline.timed (h : Timeline env S first s) (hS : ScaleFits S) : Timed env S first s := by
  refine ⟨fun _ => h.next.left, h.dated, fun a ha b hb => ?_⟩
  have hm : b.id ∈ s.fs.written.map (·.id) := List.mem_map_of_mem hb
  have hlt := h.next.lt_next hS.1 hm
  exact ⟨h.next.head_le hS.1 (h.head a ha).2 (List.mem_append_left _ hm),
    fun id hdvd hle hid => h.mem_ids hS ha hle hdvd (by omega)⟩

/-- A change that touches neither the next slot nor the blocks; time may pass. -/
theorem Timeline.of_eq (h : Timeline env S first s) (hs : t.w.pieceScale = s.w.pieceScale)
    (hi : t.w.currentPieceId = s.w.currentPieceId) (hw : t.fs.written = s.fs.written) (hn : s.now env ≤ t.now env) :
    Timeline env S first t :=
  ⟨hs.trans h.scale, hi ▸ h.multiple, by have := h.near; omega, by rw [hi, hw]; exact h.next,
    by rw [hi, hw]; exact h.head, by rw [hw]; exact h.dated⟩

theorem Passed.of_eq (h : Passed env S first s) (hs : t.w.pieceScale = s.w.pieceScale)
    (hi : t.w.currentPieceId = s.w.currentPieceId) (hw : t.fs.written = s.fs.written) (hn : s.now env ≤ t.now env) :
    Passed env S first t :=
  ⟨h.toTimeline.of_eq hs hi hw hn, by have := h.notAhead; omega⟩

theorem Steady.now_ticked (hc : Steady env) (s : World) : s.now env ≤ (ticked s).now env :=
  hc.mono (by show s.reads - 1 ≤ s.reads + 1 - 1; omega)

theorem Steady.now_lt (hc : Steady env) (s : World) : s.now env < 2 ^ 31 := hc.lt _

/-- `(int)(now - current_piece_id_) / (int)piece_scale_ > 0` says that the slot
has fully elapsed. -/
theorem slotsBehind_pos_iff {w : Writer} {now : Nat} (hS : ScaleFits w.pieceScale) (hn : now < 2 ^ 31)
    (hi : w.currentPieceId ≤ now + 2 ^ 31) : w.slotsBehind now > 0 ↔ w.currentPieceId + w.pieceScale ≤ now := by
  obtain ⟨h₀, h₁⟩ := hS
  have hsc : i32 w.pieceScale = w.pieceScale := i32_of_lt (by omega)
  have hd : i32 (sub32 now w.currentPieceId) = (now : Int) - w.currentPieceId :=
    i32_sub32 (by omega) (by omega) (by omega) hi
  rw [Writer.slotsBehind, hsc, hd, gt_iff_lt, tdiv_pos_iff (by omega)]
  omega

theorem Timeline.behind_iff (h : Timeline env S first s) (hc : Steady env) (hS : ScaleFits S) :
    s.w.slotsBehind (s.now env) > 0 ↔ s.w.currentPieceId + S ≤ s.now env := by
  have hs := h.scale
  subst hs
  exact slotsBehind_pos_iff hS (hc.now_lt s) h.near

/-- No block has been written while the next id is 0. -/
theorem Timeline.written_eq_nil (h : Timeline env S first s) (hS : ScaleFits S) (h₀ : s.w.currentPieceId = 0) :
    s.fs.written = [] := by
  cases hw : s.fs.written with
  | nil => rfl
  | cons b l =>
    have hl := h.next.lt_next hS.1 (List.mem_map_of_mem (by rw [hw]; exact List.mem_cons_self : b ∈ s.fs.written))
    rw [h₀] at hl
    exact absurd hl (Nat.not_lt_zero _)

theorem not_fails (hf : Faultless env) (s : World) : ¬ Fails env s := fun h => h.1 (hf _)

/-- A block goes into the next slot. -/
theorem Wrote.timeline (hc : Steady env) (hS : ScaleFits S) (h : Passed env S first s) {kind : BlockKind} {data : Piece}
    {len : Nat} (hw : Wrote env kind data len s t) (hk : isSpecial kind = true → s.w.currentPieceId + S ≤ s.now env) :
    Timeline env S first t ∧ t.w.currentPieceId = s.w.currentPieceId + S ∧ t.now env = s.now env := by
  have hlt := hc.now_lt s
  have hS₂ := hS.2
  have hle := h.notAhead
  have hn : t.now env = s.now env := by rw [World.now, World.now, hw.reads]
  have hi : t.w.currentPieceId = s.w.currentPieceId + S := by
    rw [hw.w]
    show u32 (s.w.currentPieceId + s.w.pieceScale) = _
    rw [h.scale, u32_of_lt (by omega)]
  have hids : t.fs.written.map (·.id) = s.fs.written.map (·.id) ++ [s.w.currentPieceId] := by
    rw [hw.written, List.map_append]; rfl
  refine ⟨⟨by rw [hw.w]; exact h.scale, ?_, ?_, ?_, ?_, ?_⟩, hi, hn⟩
  · rw [hi]; exact Nat.dvd_add h.multiple (Nat.dvd_refl S)
  · rw [hi, hn]; omega
  · rw [hi, hids]; exact h.next.concat
  · intro a ha
    refine ⟨(h.head a ha).1, ?_⟩
    rw [hids, List.head?_append_of_ne_nil _ (by simp)]
    exact (h.head a ha).2
  · rw [hw.written]
    intro b hm
    rcases List.mem_append.mp hm with hm | hm
    · exact h.dated b hm
    · rw [List.mem_singleton.mp hm]; exact ⟨h.multiple, hle, hk⟩

/-- While the retry loop is running, the blocks of the next slot are put in
place over and over. -/
theorem NewBlocks.timed (hS : ScaleFits S) (h : Passed env S first s) {kind : BlockKind} {data : Piece}
    (hk : isSpecial kind = true → s.w.currentPieceId + S ≤ s.now env) (hn : NewBlocks env kind data s t)
    (hids : Faultless env → t.fs.written = s.fs.written) : Timed env S first t := by
  have hold := h.timed hS
  have hmem : ∀ {id : Nat}, id ∈ s.fs.written.map (·.id) → id ∈ t.fs.written.map (·.id) := fun hm => by
    obtain ⟨b, hb, rfl⟩ := List.mem_map.mp hm
    exact List.mem_map_of_mem (hn.kept b hb)
  refine ⟨fun hf => by rw [hids hf]; exact h.next.left, fun b hb => ?_, fun a ha b hb => ?_⟩
  · rcases hn.written b hb with hb | ⟨hkd, hid, -, -, hnow⟩
    · exact h.dated b hb
    · refine ⟨hid ▸ h.multiple, by rw [hid, hnow]; exact h.notAhead, fun he => ?_⟩
      rw [hid, hnow]
      exact hk (hkd ▸ he)
  · rcases hn.written b hb with hb' | ⟨-, hid, -⟩
    · obtain ⟨hle, hgap⟩ := hold.gapless a ha b hb'
      exact ⟨hle, fun id hd h₁ h₂ => hmem (hgap id hd h₁ h₂)⟩
    · have hle : a ≤ b.id := by
        rw [hid]
        exact h.next.head_le hS.1 (h.head a ha).2 (List.mem_append_right _ (List.mem_singleton_self _))
      refine ⟨hle, fun id hd h₁ h₂ => ?_⟩
      rcases Nat.eq_or_lt_of_le h₂ with rfl | hlt
      · exact List.mem_map_of_mem hb
      · exact hmem (h.mem_ids hS ha h₁ hd (by omega))

theorem writeBlock_timeline (hc : Steady env) (hS : ScaleFits S) (h : Passed env S first s) (fuel : Nat)
    {kind : BlockKind} (hk : isSpecial kind = true → s.w.currentPieceId + S ≤ s.now env) (data : Piece) (len n : Nat) :
    WP (writeBlock env fuel kind data len n) s
      (fun _ t => Timeline env S first t ∧ t.w.currentPieceId = s.w.currentPieceId + S ∧ t.now env = s.now env)
      (Timed env S first) := by
  have hh : Passed env S first (headed env len data s) := h.of_eq rfl rfl rfl le_rfl
  refine (writeBlock_spec env fuel kind data len n s).mono (fun _ t hw => hw.timeline hc hS h hk) fun t ht => ?_
  exact ht.1.timed hS hh hk fun hf => by rw [ht.2 (not_fails hf s)]

/-- A special block goes into a slot that has fully elapsed. -/
theorem writeOneSpecialPiece_timeline (hc : Steady env) (hS : ScaleFits S) (h : Timeline env S first s)
    (fuel : Nat) {specialType : Nat} (hty : specialType ≤ 1) (hb : s.w.slotsBehind (s.now env) > 0) :
    WP (writeOneSpecialPiece env fuel specialType) s
      (fun _ t => Passed env S first t ∧ t.w.currentPieceId = s.w.currentPieceId + S ∧ t.now env = s.now env) (Timed env S first) := by
  have he := (h.behind_iff hc hS).mp hb
  have hp : Passed env S first (specialStart specialType s) :=
    ⟨h.of_eq rfl rfl rfl le_rfl, show s.w.currentPieceId ≤ s.now env + S by omega⟩
  unfold WP
  rw [writeOneSpecialPiece_eq env fuel hty]
  refine (writeBlock_timeline hc hS hp fuel (fun _ => he) _ _ _).mono (fun _ t ht => ?_) fun _ h => h
  have hi : t.w.currentPieceId = s.w.currentPieceId + S := ht.2.1
  have hn : t.now env = s.now env := ht.2.2
  exact ⟨⟨ht.1, by omega⟩, hi, hn⟩

theorem writePiece_timeline (hc : Steady env) (hS : ScaleFits S) (h : Passed env S first s) (fuel : Nat)
    (piece : Piece) : WP (writePiece env fuel piece) s (fun _ t => Timeline env S first t) (Timed env S first) := by
  have hp : Passed env S first (cued s) := h.of_eq rfl rfl rfl le_rfl
  unfold WP
  rw [writePiece_eq]
  exact (writeBlock_timeline hc hS hp fuel (fun e => by cases e) _ _ _).mono (fun _ t ht => ht.1) fun _ h => h

theorem offRemoval_timeline (h : Timeline env S first s) (hk : offRemoval t = offRemoval s) : Timeline env S first t := by
  have hw : t.w = s.w := congrArg (·.w) hk
  have hr : t.reads = s.reads := congrArg (·.reads) hk
  exact h.of_eq (by rw [hw]) (by rw [hw]) (congrArg (·.fs.written) hk) (by rw [World.now, World.now, hr])

/-- The invariant of the writer's thread. -/
theorem timeline_invariant (hc : Steady env) (hS : ScaleFits S) :
    Invariant env (Timeline env S first) (Passed env S first) (Timed env S first) where
  running _ h := h.timed hS
  passed _ h := h.toTimeline
  inert h hi := by
    obtain ⟨h₁, h₂, h₃⟩ := hi.slots env
    exact h.of_eq h₂ h₁ (by rw [hi.fs]) (by rw [h₃])
  tick s h := h.of_eq rfl rfl rfl (hc.now_ticked s)
  tickPassed s h := h.of_eq rfl rfl rfl (hc.now_ticked s)
  special n _ hty h hb := (writeOneSpecialPiece_timeline hc hS h n hty hb).mono (fun _ _ h => h.1.toTimeline) fun _ h => h
  specialPassed n _ h hb :=
    (writeOneSpecialPiece_timeline hc hS h.toTimeline n le_rfl hb).mono (fun _ _ h => h.1) fun _ h => h
  guard s h hg := by
    have hlt := hc.now_lt s
    have hS₂ := hS.2
    rw [h.scale, u32_of_lt (by omega)] at hg
    exact ⟨h, by omega⟩
  begin s h h₀ := by
    have hw := h.written_eq_nil hS h₀
    have hle := Nat.div_mul_le_self (s.now env) s.w.pieceScale
    refine ⟨h.scale, ?_, ?_, ?_, fun a ha => ?_, h.dated⟩
    · show S ∣ s.now env / s.w.pieceScale * s.w.pieceScale
      rw [h.scale]; exact Nat.dvd_mul_left _ _
    · show s.now env / s.w.pieceScale * s.w.pieceScale ≤ s.now env + 2 ^ 31
      omega
    · show Progression S (s.fs.written.map (·.id) ++ _)
      rw [hw]; exact .singleton _
    · -- a known first id is the next one, which is not 0
      obtain ⟨hpos, hhead⟩ := h.head a ha
      rw [hw, h₀] at hhead
      cases hhead
      exact absurd hpos (Nat.lt_irrefl 0)
  header _ _ h := h.of_eq rfl rfl rfl le_rfl
  piece n p _ h := writePiece_timeline hc hS h n p
  expire expired s h :=
    (dropExpired_offRemoval env expired s.fs.pieceFileQueue s).mono (fun _ _ hk => offRemoval_timeline h hk)
      fun _ hk => (offRemoval_timeline h hk).timed hS
  dirs _ _ _ h := h.of_eq rfl rfl rfl le_rfl
  update h hu := by
    obtain ⟨_, _, _, _, -, -, ⟨_, -, rfl⟩ | ⟨-, rfl⟩⟩ := handleUpdateHeader_cases hu
    · exact h.of_eq rfl rfl rfl le_rfl
    · exact h.of_eq rfl rfl rfl le_rfl

/-- Before the first block. -/
theorem Timeline.fresh (hs : s.w.pieceScale = S) (hm : S ∣ s.w.currentPieceId)
    (hn : s.w.currentPieceId ≤ s.now env + 2 ^ 31) (hw : s.fs.written = []) : Timeline env S none s :=
  ⟨hs, hm, hn, by rw [hw]; exact .singleton _, (fun a ha => by cases ha), by rw [hw]; exact fun b hb => by cases hb⟩

/-- The state behind `resumePieces` with `f` the last block found. -/
def resumed (f : PieceFileInfo) (s : World) : World :=
  { s with w := { s.w with
      currentPieceId := u32 (f.id + s.w.pieceScale) / s.w.pieceScale * s.w.pieceScale
      curMediaTs := match s.fs.disk.read f.path with
        | some content => getLastTsInPiece content
        | none => 0 } }

theorem resumePieces_apply (mediaTs : Nat) (s : World) :
    (∃ f, s.fs.pieceFileQueue.getLast? = some f ∧ resumePieces mediaTs s = .ret (resumed f s).w.curMediaTs (resumed f s)) ∨
      (s.fs.pieceFileQueue = [] ∧ resumePieces mediaTs s = .ret mediaTs s) := by
  rw [resumePieces, Prog.bind_ret (Prog.get_apply s)]
  cases hl : s.fs.pieceFileQueue.getLast? with
  | none => exact .inr ⟨List.getLast?_eq_none_iff.mp hl, rfl⟩
  | some f => exact .inl ⟨f, rfl, rfl⟩

/-- The id behind the last block found. -/
theorem resumed_timeline (h : Timeline env S none s) (hw : s.fs.written = []) {f : PieceFileInfo}
    (hf : f.id + S ≤ s.now env + 2 ^ 31) : Timeline env S none (resumed f s) := by
  have hle : u32 (f.id + S) ≤ f.id + S := Nat.mod_le _ _
  have hdiv := Nat.div_mul_le_self (u32 (f.id + S)) S
  refine .fresh h.scale ?_ ?_ hw
  · show S ∣ u32 (f.id + s.w.pieceScale) / s.w.pieceScale * s.w.pieceScale
    rw [h.scale]; exact Nat.dvd_mul_left _ _
  · show u32 (f.id + s.w.pieceScale) / s.w.pieceScale * s.w.pieceScale ≤ s.now env + 2 ^ 31
    rw [h.scale]; omega

theorem resumePieces_timeline (h : Timeline env S none s) (hw : s.fs.written = [])
    (hq : ∀ f ∈ s.fs.pieceFileQueue, f.id + S ≤ s.now env + 2 ^ 31) (mediaTs : Nat) {J : World → Prop} :
    WP (resumePieces mediaTs) s (fun _ t => Timeline env S none t) J := by
  rcases resumePieces_apply mediaTs s with ⟨f, hl, e⟩ | ⟨-, e⟩
  · exact .of_ret e (resumed_timeline h hw (hq f (List.mem_of_getLast? hl)))
  · exact .of_ret e h

end

/-- The blocks of the channel on the disk have numbers of at most `limit`. -/
def BlocksUpTo (disk : Tree) (dir : Path) (guid : Name) (limit : Nat) : Prop :=
  ∀ d n c, (dir ++ [d, guid, n], c) ∈ disk.files → extension n = blockExtension → blockNumber n ≤ limit

/-- The scan of the newest directory, and the id that goes on behind it. -/
theorem load_timeline {env : Env} {S : Nat} (hS : ScaleFits S) (u : Uninit) (dir : Path) (guid : Name)
    (life report : Nat) {disk : Tree} {limit : Nat} (hd : BlocksUpTo disk dir guid limit)
    (hl : limit + S ≤ env.utc 0 + 2 ^ 31) {d : DirInfo}
    (hdir : (scanned env (construct u dir guid S life report disk)).fs.dirQueue.getLast? = some d) :
    WP (loadPieces env (env.utc 0) d.path) (opened d (scanned env (construct u dir guid S life report disk)))
      (fun _ t => Queued (fun f => f.id ≤ limit) t ∧ WP (resumePieces 0) t (fun _ v => Timeline env S none v) (Timed env S none))
      (Timed env S none) := by
  have hopen : Timeline env S none (opened d (scanned env (construct u dir guid S life report disk))) :=
    .fresh rfl (Nat.dvd_zero S) (Nat.zero_le _) rfl
  obtain ⟨x, hx⟩ := path_of_newest hdir
  have hq : WP (loadPieces env (env.utc 0) d.path) (opened d (scanned env (construct u dir guid S life report disk)))
      (fun _ t => Queued (fun f => f.id ≤ limit) t) (Queued fun f => f.id ≤ limit) :=
    loadPieces_queued env _ _ fun n c hc he => by
      rw [hx, List.append_assoc] at hc
      exact hd x n c hc he
  refine (hq.and (loadPieces_offRemoval env (env.utc 0) d.path _)).mono (fun _ t ht => ⟨ht.1, ?_⟩) fun t ht =>
    (offRemoval_timeline hopen ht.2).timed hS
  have hr : t.reads = 1 := congrArg (·.reads) ht.2
  refine resumePieces_timeline (offRemoval_timeline hopen ht.2) (congrArg (·.fs.written) ht.2) (fun f hf => ?_) 0
  have hf : f.id ≤ limit := ht.1 f hf
  rw [World.now, hr]
  show f.id + S ≤ env.utc 0 + 2 ^ 31
  omega

/-- The writer after `Init`. -/
theorem start_timeline {env : Env} {S : Nat} (hc : Steady env) (hS : ScaleFits S) (fuel : Nat)
    (u : Uninit) (dir : Path) (guid : Name) (life report : Nat) {disk : Tree} {limit : Nat}
    (hd : BlocksUpTo disk dir guid limit) (hl : limit + S ≤ env.utc 0 + 2 ^ 31) :
    WP (init env fuel 0) (construct u dir guid S life report disk)
      (fun _ t => Timeline env S none t ∧ ¬ (t.w.currentPieceId ≠ 0 ∧ t.w.slotsBehind (t.now env) > 0))
      (Timed env S none) :=
  (timeline_invariant hc hS).init fuel 0 (fun _ => .fresh rfl (Nat.dvd_zero S) (Nat.zero_le _) rfl) fun _ hdir =>
    (load_timeline hS u dir guid life report hd hl hdir).mono (fun _ _ h => h.2) fun _ h => h

/-- In every state of every run the ids of the blocks are an arithmetic
progression of multiples of `piece_scale_`, none of them written more than a
slot ahead of the clock. -/
theorem timeline_progression {env : Env} {S : Nat} (hc : Steady env) (hf : Faultless env) (hS : ScaleFits S) {fuel : Nat}
    {u : Uninit} {dir : Path} {guid : Name} {life report : Nat} {disk : Tree} {limit : Nat}
    (hd : BlocksUpTo disk dir guid limit) (hl : limit + S ≤ env.utc 0 + 2 ^ 31) {t : World}
    (ht : Shows env (start env fuel u dir guid S life report disk) t) :
    Progression S (t.fs.written.map (·.id)) ∧ (t.fs.written.map (·.id)).Nodup ∧
      ∀ b ∈ t.fs.written, S ∣ b.id ∧ b.id ≤ b.now + S := by
  have h₀ := start_timeline hc hS fuel u dir guid life report hd hl
  have h : Timed env S none t := (timeline_invariant hc hS).shows (fun e => (h₀.ret e).1) (fun e => h₀.run e) ht
  exact ⟨h.ids hf, (h.ids hf).nodup hS.1, fun b hb => ⟨(h.dated b hb).multiple, (h.dated b hb).notAhead⟩⟩

/-- A clock that starts at 1000 and goes on by a second at every reading. -/
def counting : Nat → Nat := fun n => min (1000 + n) 2000

theorem steady_counting : Steady (quiet counting) :=
  ⟨fun h => by simp only [quiet, counting]; omega, fun i => by simp only [quiet, counting]; omega⟩

/-- Pieces, an alarm while the reader is off air and a loss of the connection. -/
def mixedEvents : List WriterEvent :=
  [.msg 9 (.writePiece true [flvHeader] 0 0), .msg 9 (.writePiece false [] 0 0), .msg 9 (.writePiece false [] 0 0),
    .msg 9 .readerError, .alarm 9, .alarm 9]

theorem timeline_progression_mixed :
    ∃ t, Shows (quiet counting) (start (quiet counting) 1 zeroed [] ['g'] 2 100 60 ⟨[], []⟩) t ∧
      t.fs.written.map (·.id) = [1002, 1004, 1006] ∧ Progression 2 (t.fs.written.map (·.id)) := by
  have h : ((start (quiet counting) 1 zeroed [] ['g'] 2 100 60 ⟨[], []⟩).andThen fun _ w =>
      runEvents (writerStep (quiet counting)) w mixedEvents).map (fun t => t.fs.written.map (·.id)) =
        some [1002, 1004, 1006] := by
    decide +kernel
  obtain ⟨t, ht, h⟩ := Option.map_eq_some_iff.mp h
  have hd : BlocksUpTo ⟨[], []⟩ [] ['g'] 0 := fun _ _ _ h => by cases h
  exact ⟨t, .of_runEvents ht, h, (timeline_progression steady_counting (fun _ => rfl) ⟨by decide, by decide⟩ hd (by decide)
    (.of_runEvents ht)).1⟩

/-- With the interval -2147483647 `cut_scale_` is 1000 and `piece_scale_` is `2^31 + 1`.
The id wraps: the third block gets the id 2. -/
theorem ids_wrap :
    ∃ t, Shows (quiet fun _ => 1000)
        (start (quiet fun _ => 1000) 1 zeroed [] ['g'] (2 ^ 31 + 1) 100 60 ⟨[], []⟩) t ∧
      t.fs.written.map (·.id) = [0, 2 ^ 31 + 1, 2] ∧ ¬ Progression (2 ^ 31 + 1) (t.fs.written.map (·.id)) ∧
      ¬ ∀ b ∈ t.fs.written, 2 ^ 31 + 1 ∣ b.id := by
  have h : ((start (quiet fun _ => 1000) 1 zeroed [] ['g'] (2 ^ 31 + 1) 100 60 ⟨[], []⟩).andThen fun _ w =>
      runEvents (writerStep (quiet fun _ => 1000)) w
        [.msg 2 (.writePiece true [flvHeader] 0 0), .msg 2 (.writePiece false [] 0 0), .msg 2 (.writePiece false [] 0 0),
          .msg 2 (.writePiece false [] 0 0)]).map (fun t => t.fs.written.map (·.id)) = some [0, 2 ^ 31 + 1, 2] := by
    decide +kernel
  obtain ⟨t, ht, h⟩ := Option.map_eq_some_iff.mp h
  refine ⟨t, .of_runEvents ht, h, ?_, fun hdvd => ?_⟩
  · rw [h]
    intro hp
    simp [Progression] at hp
  · have hm : 2 ∈ t.fs.written.map (·.id) := by rw [h]; decide
    obtain ⟨b, hb, hid⟩ := List.mem_map.mp hm
    have := hdvd b hb
    rw [hid] at this
    omega

end XH.Proof.Cutter
