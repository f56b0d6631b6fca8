import Xhome.Proof.Cutter.Interval
import Xhome.Proof.Cutter.Restart

/-!
# Retention

The removal loop of `OnClockAlarm` looks at the front of the queue only. The ids
in the queue ascend (`Ascends`, with `Behind` for the id that comes next), so the
loop drops exactly the expired pieces, as long as the casts to `int` keep
`piece_scale_` and the ids (`retention_exact`). `piece_scale_` comes from the
command line unchecked: with -5 a block is deleted that has not expired
(`fresh_block_deleted`).
-/

namespace XH.Proof.Cutter

open XH.Impl.Cutter

/-- `now - id - piece_scale_ > piece_life_span_`, without casts. -/
def Outlived (now S life : Nat) (f : PieceFileInfo) : Prop := (now : Int) - f.id - S > life

instance (now S life : Nat) (f : PieceFileInfo) : Decidable (Outlived now S life f) := inferInstanceAs (Decidable (_ > _))

/-- The ids in the queue are strictly increasing. -/
def Ascends (s : World) : Prop := (s.fs.pieceFileQueue.map (·.id)).Pairwise (· < ·)

/-- The queue is in order, and the next id is behind it. -/
structure Behind (s : World) : Prop where
  ascends : Ascends s
  below : Queued (fun f => f.id < s.w.currentPieceId) s

/-! ## The queue gets shorter at its front -/

/-- Pieces have only left the queue, from its front. -/
def QueueShrinks (s t : World) : Prop := t.fs.pieceFileQueue <:+ s.fs.pieceFileQueue

instance : Std.Refl QueueShrinks := ⟨fun _ => List.suffix_refl _⟩

instance : IsTrans World QueueShrinks := ⟨fun _ _ _ h h' => List.IsSuffix.trans h' h⟩

section
variable {env : Env} {s t : World}

theorem Ascends.shrinks (h : Ascends s) (hq : QueueShrinks s t) : Ascends t :=
  List.Pairwise.sublist (List.IsSuffix.sublist hq |>.map _) h

theorem Behind.shrinks (h : Behind s) (hi : t.w.currentPieceId = s.w.currentPieceId) (hq : QueueShrinks s t) : Behind t :=
  ⟨h.ascends.shrinks hq, fun f hf => hi ▸ h.below f (hq.mem hf)⟩

/-- A new directory empties the queue. -/
theorem queueShrinks_attempts : AttemptMoves QueueShrinks where
  disk _ := .modify fun _ => List.suffix_refl _
  written _ := .modify fun _ => List.suffix_refl _
  attempts := .modify fun _ => List.suffix_refl _
  path _ := .modify fun _ => List.suffix_refl _
  enter _ := .modify fun _ => List.nil_suffix

theorem tryRemove_queue (env : Env) (path : Path) : Keeps (fun s => s.fs.pieceFileQueue) (tryRemove env path) :=
  .bind .read fun _ => .bind (.modify fun _ => rfl) fun _ =>
    .ite (.pure _) (.bind (.modify fun _ => rfl) fun _ => .pure _)

/-- The loop over the queue `l`. -/
theorem decreaseLoop_suffix (env : Env) (n : Nat) :
    ∀ (l : List PieceFileInfo) (m : Nat) {s : World}, s.fs.pieceFileQueue <:+ l →
      WP (decreaseLoop env n l m) s (fun _ t => t.fs.pieceFileQueue <:+ l) (fun t => t.fs.pieceFileQueue <:+ l)
  | [], _, _, h => .pure h
  | f :: rest, m, s, h => by
    have hrest : ∀ (k : Nat) (t : World), WP (do
          Prog.modify fun s => { s with fs := { s.fs with pieceFileQueue := rest } }
          decreaseLoop env n rest k : Prog World Unit) t
        (fun _ t => t.fs.pieceFileQueue <:+ f :: rest) (fun t => t.fs.pieceFileQueue <:+ f :: rest) := fun k t =>
      .bind (.modify ((decreaseLoop_suffix env n rest k (List.suffix_refl rest)).mono
        (fun _ _ h => h.trans (List.suffix_cons f rest)) fun _ h => h.trans (List.suffix_cons f rest)))
    rw [decreaseLoop]
    split
    · refine .bind (.get ?_)
      split
      · refine .seq ((tryRemove_queue env f.path s).mono (fun _ _ h => h) fun t ht => ?_) fun _ t _ => hrest _ t
        have hq : t.fs.pieceFileQueue = s.fs.pieceFileQueue := ht
        rw [hq]
        exact h
      · exact .bind (.pure (hrest _ s))
    · exact .pure h

theorem decreasePiece_queueShrinks (env : Env) (n : Nat) : Moves QueueShrinks (decreasePiece env n) := fun _ =>
  .bind (.get (decreaseLoop_suffix env n _ 0 (List.suffix_refl _)))

theorem dropExpired_queueShrinks (env : Env) (expired : PieceFileInfo → Bool) (s : World) :
    WP (dropExpired env expired s.fs.pieceFileQueue) s (fun _ t => QueueShrinks s t) (QueueShrinks s) := by
  obtain ⟨t, ht, hq, -⟩ := dropExpired_apply env expired s.fs.pieceFileQueue rfl
  refine .of_ret ht ?_
  rw [QueueShrinks, hq]
  exact List.dropWhile_suffix _

/-! ## A block -/

/-- The entry of a block goes behind the queue. -/
theorem Wrote.behind {kind : BlockKind} {data : Piece} {len : Nat} (hw : Wrote env kind data len s t) (h : Behind s)
    (hS : 0 < s.w.pieceScale) (hlt : s.w.currentPieceId + s.w.pieceScale < 2 ^ 32) : Behind t := by
  have hi : t.w.currentPieceId = s.w.currentPieceId + s.w.pieceScale := by
    rw [hw.w]
    exact u32_of_lt hlt
  -- what is left of the old queue
  have hold : ∀ f ∈ (if s.entersDir then [] else s.fs.pieceFileQueue), f.id < s.w.currentPieceId := fun f hf => by
    split at hf
    · cases hf
    · exact h.below f hf
  have hsorted : ((if s.entersDir then [] else s.fs.pieceFileQueue).map (·.id)).Pairwise (· < ·) := by
    split
    · exact .nil
    · exact h.ascends
  refine ⟨?_, fun f hf => ?_⟩
  · rw [Ascends, hw.pieceFileQueue, List.map_append, List.pairwise_append]
    refine ⟨hsorted, List.pairwise_singleton _ _, fun i hi j hj => ?_⟩
    obtain ⟨f, hf, rfl⟩ := List.mem_map.mp hi
    rw [List.map_singleton, List.mem_singleton] at hj
    rw [hj]
    exact hold f hf
  · rw [hi]
    rw [hw.pieceFileQueue] at hf
    rcases List.mem_append.mp hf with hf | hf
    · have := hold f hf
      omega
    · rw [List.mem_singleton.mp hf]
      show s.w.currentPieceId < _
      omega

theorem writeBlock_behind (h : Behind s) (hS : 0 < s.w.pieceScale) (hlt : s.w.currentPieceId + s.w.pieceScale < 2 ^ 32)
    (fuel : Nat) (kind : BlockKind) (data : Piece) (len n : Nat) :
    WP (writeBlock env fuel kind data len n) s (fun _ t => Behind t) Ascends := by
  refine .intro (fun _ t e => (wrote_of_writeBlock e).2.behind h hS hlt) (fun t e => ?_)
    (writeBlock_kept env fuel kind data len n s).not_ub
  have hm : Moves QueueShrinks (writeLoop env kind data (u32 (len + flvBlockHeaderTSize)) fuel 0 n) :=
    writeLoop_moves queueShrinks_attempts (decreasePiece_queueShrinks env) kind data _ fuel 0 n
  have hw : WP (writeBlock env fuel kind data len n) s (fun _ _ => True) (QueueShrinks s) :=
    .bind (.modify (.bind ((hm (headed env len data s)).mono (fun _ _ _ => .modify trivial) fun _ h => h)))
  exact h.ascends.shrinks (hw.run e)

/-! ## The writer's thread -/

variable {S : Nat}

/-- The order of the queue, with the timeline. -/
theorem behind_invariant (hc : Steady env) (hS : ScaleFits S) :
    Invariant env (fun s => Timeline env S none s ∧ Behind s) (fun s => Passed env S none s ∧ Behind s) Ascends := by
  have hT : Invariant env (Timeline env S none) (Passed env S none) (Timed env S none) := timeline_invariant hc hS
  have hfits : ∀ s : World, s.w.pieceScale = S → s.w.currentPieceId ≤ s.now env + S →
      0 < s.w.pieceScale ∧ s.w.currentPieceId + s.w.pieceScale < 2 ^ 32 := fun s hs h => by
    have hlt := hc.now_lt s
    have hS₂ := hS.2
    have hS₁ := hS.1
    omega
  have hspecial : ∀ (n ty : Nat) (s : World), ty ≤ 1 → Timeline env S none s → Behind s → s.w.slotsBehind (s.now env) > 0 →
      WP (writeOneSpecialPiece env n ty) s (fun _ t => Behind t) Ascends := fun n ty s hty h hb hs => by
    have he := (h.behind_iff hc hS).mp hs
    obtain ⟨h₀, h₁⟩ := hfits s h.scale (by omega)
    have hp : Behind (specialStart ty s) := hb.shrinks rfl (List.suffix_refl _)
    unfold WP
    rw [writeOneSpecialPiece_eq env n hty]
    exact writeBlock_behind hp h₀ h₁ n _ _ _ _
  exact {
    running := fun s h => h.2.ascends
    passed := fun s h => ⟨hT.passed s h.1, h.2⟩
    inert := fun h hk => ⟨hT.inert h.1 hk, h.2.shrinks (hk.slots env).1 (by
      simp only [QueueShrinks, hk.fs, List.suffix_refl])⟩
    tick := fun s h => ⟨hT.tick s h.1, h.2.shrinks rfl (List.suffix_refl _)⟩
    tickPassed := fun s h => ⟨hT.tickPassed s h.1, h.2.shrinks rfl (List.suffix_refl _)⟩
    special := fun n s hty h hb => ((hT.special n s hty h.1 hb).and (hspecial n _ s hty h.1 h.2 hb)).mono
      (fun _ _ h => h) fun _ h => h.2
    specialPassed := fun n s h hb => ((hT.specialPassed n s h.1 hb).and (hspecial n 1 s le_rfl h.1.toTimeline h.2 hb)).mono
      (fun _ _ h => h) fun _ h => h.2
    guard := fun s h hg => ⟨hT.guard s h.1 hg, h.2⟩
    begin := fun s h h₀ => by
      -- with the next id 0 there is nothing in the queue
      have hq : s.fs.pieceFileQueue = [] := List.eq_nil_iff_forall_not_mem.mpr fun f hf => by
        have := h.2.below f hf
        omega
      refine ⟨hT.begin s h.1 h₀, ⟨h.2.ascends, fun f hf => ?_⟩⟩
      have hf : f ∈ s.fs.pieceFileQueue := hf
      rw [hq] at hf
      cases hf
    header := fun p s h => ⟨hT.header p s h.1, h.2.shrinks rfl (List.suffix_refl _)⟩
    piece := fun n p s h => by
      obtain ⟨h₀, h₁⟩ := hfits s h.1.scale h.1.notAhead
      have hp : Behind (cued s) := h.2.shrinks rfl (List.suffix_refl _)
      have hw : WP (writePiece env n p) s (fun _ t => Behind t) Ascends := by
        unfold WP
        rw [writePiece_eq]
        exact writeBlock_behind hp h₀ h₁ n _ _ _ _
      exact ((hT.piece n p s h.1).and hw).mono (fun _ _ h => h) fun _ h => h.2
    expire := fun expired s h => by
      have hk := (dropExpired_offRemoval env expired s.fs.pieceFileQueue s).and (dropExpired_queueShrinks env expired s)
      refine ((hT.expire expired s h.1).and hk).mono (fun _ t ht => ⟨ht.1, h.2.shrinks ?_ ht.2.2⟩) fun t ht =>
        h.2.ascends.shrinks ht.2.2
      exact congrArg (·.w.currentPieceId) ht.2.1
    dirs := fun ds s hd h => ⟨hT.dirs ds s hd h.1, h.2.shrinks rfl (List.suffix_refl _)⟩
    update := fun h hu => ⟨hT.update h.1 hu, by
      obtain ⟨_, _, _, _, -, -, ⟨_, -, rfl⟩ | ⟨-, rfl⟩⟩ := handleUpdateHeader_cases hu
      · exact h.2.shrinks rfl (List.suffix_refl _)
      · exact h.2.shrinks rfl (List.suffix_refl _)⟩ }

/-! ## The scan -/

/-- The scan finds the files in the order of their numbers. -/
theorem scanPieces_ascends (d : Tree) (dir : Path) : (((scanPieces d dir).map (·.2)).map (·.id)).Pairwise (· < ·) := by
  rw [List.map_map, List.pairwise_map]
  refine (ascending_mapOfList _).imp_of_mem fun {a b} ha hb hlt => ?_
  obtain ⟨n, c, -, -, rfl⟩ := scanPieces_mem ha
  obtain ⟨m, c', -, -, rfl⟩ := scanPieces_mem hb
  exact hlt

theorem loadPieces_ascends (env : Env) (nowId : Nat) (dir : Path) (s : World) {J : World → Prop} :
    WP (loadPieces env nowId dir) s (fun _ t => Ascends t ∧ t.w = s.w) J := by
  obtain ⟨t, ht, hgo, hstuck, -⟩ := loadPieces_apply env nowId dir s
  refine .of_ret ht ⟨?_, congrArg (·.w) ((loadPieces_offRemoval env nowId dir).ret ht)⟩
  by_cases hg : TmpsGo env s.fs.disk dir s.fs.removes
  · rw [Ascends, hgo hg]
    exact (scanPieces_ascends s.fs.disk dir).sublist ((List.dropWhile_suffix _).sublist.map _)
  · rw [Ascends, hstuck hg]
    exact .nil

/-- The next id is behind the last one found. -/
theorem resumePieces_behind (ha : Ascends s) (hS : 0 < s.w.pieceScale)
    (hq : Queued (fun f => f.id + s.w.pieceScale < 2 ^ 32) s) (mediaTs : Nat) {J : World → Prop} :
    WP (resumePieces mediaTs) s (fun _ t => Behind t) J := by
  rcases resumePieces_apply mediaTs s with ⟨f, hf, e⟩ | ⟨hnil, e⟩
  · have hm := List.mem_of_getLast? hf
    have hlt : f.id + s.w.pieceScale < 2 ^ 32 := hq f hm
    refine .of_ret e ⟨ha, fun g hg => ?_⟩
    have hle : g.id ≤ f.id := by
      obtain ⟨l, hl⟩ := List.getLast?_eq_some_iff.mp hf
      have ha : (s.fs.pieceFileQueue.map (·.id)).Pairwise (· < ·) := ha
      have hg : g ∈ s.fs.pieceFileQueue := hg
      rw [hl, List.map_append, List.pairwise_append] at ha
      rw [hl] at hg
      rcases List.mem_append.mp hg with hg | hg
      · exact Nat.le_of_lt (ha.2.2 _ (List.mem_map_of_mem hg) f.id (List.mem_singleton_self _))
      · rw [List.mem_singleton.mp hg]
    have hnext : f.id < (resumed f s).w.currentPieceId := by
      show f.id < u32 (f.id + s.w.pieceScale) / s.w.pieceScale * s.w.pieceScale
      rw [u32_of_lt hlt, Nat.add_div_right _ hS, Nat.succ_mul]
      exact Nat.lt_div_mul_add hS
    exact Nat.lt_of_le_of_lt hle hnext
  · refine .of_ret e ⟨ha, fun g hg => ?_⟩
    rw [hnil] at hg
    cases hg

theorem start_behind (hc : Steady env) (hS : ScaleFits S) (fuel : Nat) (u : Uninit) (dir : Path) (guid : Name)
    (life report : Nat) {disk : Tree} {limit : Nat} (hd : BlocksUpTo disk dir guid limit)
    (hl : limit + S ≤ env.utc 0 + 2 ^ 31) :
    WP (init env fuel 0) (construct u dir guid S life report disk)
      (fun _ t => Timeline env S none t ∧ Behind t) Ascends := by
  have hempty : Behind (scanned env (construct u dir guid S life report disk)) := ⟨.nil, fun f hf => by cases hf⟩
  have hscan : Timeline env S none (scanned env (construct u dir guid S life report disk)) :=
    .fresh rfl (Nat.dvd_zero S) (Nat.zero_le _) rfl
  refine ((behind_invariant hc hS).init fuel 0 (fun _ => ⟨hscan, hempty⟩) fun d hdir => ?_).mono (fun _ _ h => h.1) fun _ h => h
  have hload := (load_timeline hS u dir guid life report hd hl hdir).and
    (loadPieces_ascends env (env.utc 0) d.path (opened d (scanned env (construct u dir guid S life report disk)))
      (J := Ascends))
  refine hload.mono (fun _ t ht => ?_) fun _ h => h.2
  obtain ⟨⟨hq, hT⟩, ha, hw⟩ := ht
  have hscale : t.w.pieceScale = S := congrArg Writer.pieceScale hw
  refine (hT.and (resumePieces_behind (J := Ascends) ha (hscale ▸ hS.1) (fun f hf => ?_) 0)).mono (fun _ _ h => h) fun _ h => h.2
  have hf : f.id ≤ limit := hq f hf
  have h₀ := hc.lt 0
  rw [hscale]
  omega

/-! ## The removal loop -/

/-- What the removal loop is asked for at the time `now`: exactly the expired pieces
have left the queue, and of the files exactly theirs are gone, those apart whose
removal throws. -/
structure DropsExactly (env : Env) (now : Nat) (s t : World) : Prop where
  queue : t.fs.pieceFileQueue =
    s.fs.pieceFileQueue.filter fun f => ¬ Outlived now s.w.pieceScale s.w.pieceLifeSpan f
  disk : ∀ p, t.fs.disk.read p =
    if p ∈ removedPaths env s.fs.removes
      (s.fs.pieceFileQueue.filter fun f => Outlived now s.w.pieceScale s.w.pieceLifeSpan f) then none
    else s.fs.disk.read p

/-- With ids in order, the pieces that have outlived their time are at the front. -/
theorem outlived_front {now scale life : Nat} {expired : PieceFileInfo → Bool} :
    ∀ {l : List PieceFileInfo}, (l.map (·.id)).Pairwise (· < ·) →
      (∀ f ∈ l, expired f = true ↔ Outlived now scale life f) →
      l.takeWhile expired = l.filter (fun f => Outlived now scale life f) ∧
        l.dropWhile expired = l.filter (fun f => ¬ Outlived now scale life f)
  | [], _, _ => ⟨rfl, rfl⟩
  | f :: l, h, he => by
    rw [List.map_cons, List.pairwise_cons] at h
    by_cases hf : Outlived now scale life f
    · have hx : expired f = true := (he f List.mem_cons_self).mpr hf
      obtain ⟨ht, hd⟩ := outlived_front h.2 fun g hg => he g (List.mem_cons_of_mem _ hg)
      constructor
      · rw [List.takeWhile_cons_of_pos hx, List.filter_cons_of_pos (by simpa using hf), ht]
      · rw [List.dropWhile_cons_of_pos hx, List.filter_cons_of_neg (by simpa using hf), hd]
    · have hx : ¬ expired f = true := fun hx => hf ((he f List.mem_cons_self).mp hx)
      -- the pieces behind it are younger
      have hl : ∀ g ∈ l, ¬ Outlived now scale life g := fun g hg hout => hf (by
        have hlt : f.id < g.id := h.1 _ (List.mem_map_of_mem hg)
        simp only [Outlived] at hout ⊢
        omega)
      constructor
      · rw [List.takeWhile_cons_of_neg hx, List.filter_cons_of_neg (by simpa using hf),
          List.filter_eq_nil_iff.mpr (by simpa using hl)]
      · rw [List.dropWhile_cons_of_neg hx, List.filter_cons_of_pos (by simpa using hf),
          List.filter_eq_self.mpr (by simpa using hl)]

/-- Where the casts keep their values the loop is exact. -/
theorem removeExpired_exact {now : Nat} (ha : Ascends s) (hnow : now < 2 ^ 31) (hS : s.w.pieceScale < 2 ^ 31)
    (hlife : s.w.pieceLifeSpan < 2 ^ 31) (hids : Queued (fun f => f.id < 2 ^ 31) s) :
    ∃ t, removeExpired env now s = .ret () t ∧ DropsExactly env now s t := by
  let expired : PieceFileInfo → Bool := fun f => i32 now - i32 f.id - i32 s.w.pieceScale > i32 s.w.pieceLifeSpan
  have hcast : ∀ f ∈ s.fs.pieceFileQueue, expired f = true ↔ Outlived now s.w.pieceScale s.w.pieceLifeSpan f := fun f hf => by
    simp only [expired, Outlived, i32_of_lt hnow, i32_of_lt (hids f hf), i32_of_lt hS, i32_of_lt hlife, decide_eq_true_eq]
  obtain ⟨hfront, hrest⟩ := outlived_front ha hcast
  obtain ⟨t, ht, hq, hd⟩ := dropExpired_apply env expired s.fs.pieceFileQueue rfl
  refine ⟨t, ?_, hq.trans hrest, fun p => ?_⟩
  · rw [removeExpired, Prog.bind_ret (Prog.get_apply s)]
    exact ht
  · rw [hd p, hfront]

theorem acceptedLifeSpan_le (strArg3 : Name) : acceptedLifeSpan strArg3 ≤ 2592000 := by
  unfold acceptedLifeSpan
  dsimp only
  split
  · decide
  · omega

/-- In all states of a run the ids in the queue ascend. When the removal loop of
`OnClockAlarm` runs and all of them are below `2^31`, it drops and deletes exactly the
expired pieces; the slots are filled behind it. -/
theorem retention_exact {strArg3 strArg5 : Name} (hc : Steady env) (hS : acceptedInterval strArg5 ≤ 2 ^ 30) {fuel : Nat}
    {u : Uninit} {dir : Path} {guid : Name} {report : Nat} {disk : Tree} {limit : Nat}
    (hd : BlocksUpTo disk dir guid limit) (hl : limit + acceptedInterval strArg5 ≤ env.utc 0 + 2 ^ 31) :
    (∀ s, Shows env (start env fuel u dir guid (acceptedInterval strArg5) (acceptedLifeSpan strArg3) report disk) s →
      (s.fs.pieceFileQueue.map (·.id)).Pairwise (· < ·)) ∧
    ∀ {mediaTs : Nat} {w s : World},
      start env fuel u dir guid (acceptedInterval strArg5) (acceptedLifeSpan strArg3) report disk = .ret mediaTs w →
      Reach (writerStep env) (fun _ _ => True) w s → (∀ f ∈ s.fs.pieceFileQueue, f.id < 2 ^ 31) →
      ∃ t, removeExpired env (env.utc (s.reads + 1)) (ticked (dirsRemoved env s)) = .ret () t ∧
        DropsExactly env (env.utc (s.reads + 1)) s t ∧
        ∀ n, onClockAlarm env n s = (do
          fillOffair env (env.utc (s.reads + 1)) n
          countReport : Prog World Unit) t := by
  have hfit : ScaleFits (acceptedInterval strArg5) := ⟨acceptedInterval_pos strArg5, hS⟩
  have hI := behind_invariant hc hfit
  have h₀ := start_behind hc hfit fuel u dir guid (acceptedLifeSpan strArg3) report hd hl
  refine ⟨fun s hs => hI.shows (fun e => h₀.ret e) (fun e => h₀.run e) hs, fun {mediaTs w s} hw hr hids => ?_⟩
  have hs := hI.reach (h₀.ret hw) hr
  have hset : settings s = (acceptedInterval strArg5, acceptedInterval strArg5, blockLifeSpan (acceptedLifeSpan strArg3)) :=
    (settings_invariant _).reach (start_settings hw) hr
  have hlife : s.w.pieceLifeSpan = blockLifeSpan (acceptedLifeSpan strArg3) := congrArg (·.2.2) hset
  have hle : s.w.pieceLifeSpan ≤ 2592000 := hlife ▸ Nat.max_le.mpr ⟨by decide, acceptedLifeSpan_le strArg3⟩
  have hscale := hs.1.scale
  obtain ⟨t, ht, hex⟩ : ∃ t, removeExpired env (env.utc (s.reads + 1)) (ticked (dirsRemoved env s)) = .ret () t ∧
      DropsExactly env (env.utc (s.reads + 1)) (ticked (dirsRemoved env s)) t :=
    removeExpired_exact hs.2.ascends (hc.lt _) (show s.w.pieceScale < _ by omega) (show s.w.pieceLifeSpan < _ by omega) hids
  refine ⟨t, ht, ⟨hex.queue, hex.disk⟩, fun n => ?_⟩
  rw [onClockAlarm_eq]
  exact Prog.bind_ret ht

end

/-- A header piece, three pieces and the loss of the connection. -/
def threePieces : List WriterEvent :=
  [.msg 9 (.writePiece true [flvHeader] 0 0), .msg 9 (.writePiece false [] 0 0), .msg 9 (.writePiece false [] 0 0),
    .msg 9 (.writePiece false [] 0 0), .msg 9 .readerError]

/-- A clock that is ahead by 2000 seconds when it is read for the ninth time. -/
def resuming : Nat → Nat := fun n => if n < 8 then 1000 + n else 3007

theorem steady_resuming : Steady (quiet resuming) :=
  ⟨fun h => by simp only [quiet, resuming]; split_ifs <;> omega, fun i => by simp only [quiet, resuming]; split_ifs <;> omega⟩

theorem retention_exact_threePieces :
    ∃ s t, s.fs.pieceFileQueue.map (·.id) = [1002, 1004, 1006] ∧ s.w.pieceLifeSpan = 2000 ∧
      removeExpired (quiet resuming) 3007 (ticked (dirsRemoved (quiet resuming) s)) = .ret () t ∧
      t.fs.pieceFileQueue.map (·.id) = [1006] := by
  have h : ((start (quiet resuming) 1 zeroed [] ['g'] (acceptedInterval ['2']) (acceptedLifeSpan "2000".toList) 60
      ⟨[], []⟩).andThen fun _ w => runEvents (writerStep (quiet resuming)) w threePieces).map (fun s =>
        (s.fs.pieceFileQueue.map (·.id), s.reads, s.w.pieceLifeSpan, (s.fs.pieceFileQueue.filter fun f =>
          ¬ Outlived 3007 s.w.pieceScale s.w.pieceLifeSpan f).map (·.id))) =
        some ([1002, 1004, 1006], 7, 2000, [1006]) := by
    decide +kernel
  obtain ⟨s, hs, h⟩ := Option.map_eq_some_iff.mp h
  obtain ⟨mediaTs, w, hw, hr⟩ := Res.andThen_eq_some hs
  simp only [Prod.mk.injEq] at h
  obtain ⟨hq, hreads, hlife, hkept⟩ := h
  have hd : BlocksUpTo ⟨[], []⟩ [] ['g'] 0 := fun _ _ _ h => by cases h
  have hids : ∀ f ∈ s.fs.pieceFileQueue, f.id < 2 ^ 31 := fun f hf => by
    have hm : f.id ∈ s.fs.pieceFileQueue.map (·.id) := List.mem_map_of_mem hf
    rw [hq] at hm
    simp only [List.mem_cons, List.not_mem_nil, or_false] at hm
    omega
  have hnow : (quiet resuming).utc (s.reads + 1) = 3007 := by rw [hreads]; rfl
  obtain ⟨t, ht, hex, -⟩ := (retention_exact steady_resuming (show acceptedInterval ['2'] ≤ 2 ^ 30 by decide) hd
    (by decide)).2 hw (.of_runIf hr) hids
  rw [hnow] at ht hex
  exact ⟨s, t, hq, hlife, ht, by rw [hex.queue]; exact hkept⟩

/-- The entry of the block 0. -/
def blockZero : PieceFileInfo := ⟨0, [['0'], ['g'], blockName 0], 1532⟩

/-- With the interval -5 the cast of `piece_scale_` is -5. The first block gets the id 0;
`now - id - piece_scale_` is negative, but the block is dropped and deleted. -/
theorem fresh_block_deleted :
    ∃ mediaTs w s t f,
      start (quiet fun _ => 1700000000) 1 zeroed [] ['g'] (acceptedInterval "-5".toList) (acceptedLifeSpan "2000".toList) 60
        ⟨[], []⟩ = .ret mediaTs w ∧
      Reach (writerStep (quiet fun _ => 1700000000)) (fun _ _ => True) w s ∧
      removeExpired (quiet fun _ => 1700000000) 1700000000 (ticked (dirsRemoved (quiet fun _ => 1700000000) s)) = .ret () t ∧
      s.fs.pieceFileQueue = [f] ∧ f.id = 0 ∧ ¬ Outlived 1700000000 s.w.pieceScale s.w.pieceLifeSpan f ∧
      (s.fs.disk.read f.path).isSome = true ∧ t.fs.pieceFileQueue = [] ∧ t.fs.disk.read f.path = none ∧
      ¬ DropsExactly (quiet fun _ => 1700000000) 1700000000 s t := by
  have h : ((start (quiet fun _ => 1700000000) 1 zeroed [] ['g'] (acceptedInterval "-5".toList)
      (acceptedLifeSpan "2000".toList) 60 ⟨[], []⟩).andThen fun _ w => runEvents (writerStep (quiet fun _ => 1700000000)) w
        [.msg 2 (.writePiece true [flvHeader] 0 0), .msg 2 (.writePiece false [] 0 0)]).map (fun s =>
          (s.fs.pieceFileQueue, decide (Outlived 1700000000 s.w.pieceScale s.w.pieceLifeSpan blockZero),
            (s.fs.disk.read blockZero.path).isSome,
            (removeExpired (quiet fun _ => 1700000000) 1700000000
              (ticked (dirsRemoved (quiet fun _ => 1700000000) s))).returned.map fun t =>
                (t.fs.pieceFileQueue, (t.fs.disk.read blockZero.path).isNone))) =
        some ([blockZero], false, true, some ([], true)) := by
    decide +kernel
  obtain ⟨s, hs, h⟩ := Option.map_eq_some_iff.mp h
  obtain ⟨mediaTs, w, hw, hr⟩ := Res.andThen_eq_some hs
  simp only [Prod.mk.injEq] at h
  obtain ⟨hq, hout, hread, h⟩ := h
  obtain ⟨t, ht, h⟩ := Option.map_eq_some_iff.mp h
  obtain ⟨_, ht⟩ := Res.returned_eq_some ht
  simp only [Prod.mk.injEq] at h
  have hfresh : ¬ Outlived 1700000000 s.w.pieceScale s.w.pieceLifeSpan blockZero := of_decide_eq_false hout
  refine ⟨mediaTs, w, s, t, blockZero, hw, .of_runIf hr, ht, hq, rfl, hfresh, hread, h.1, Option.isNone_iff_eq_none.mp h.2, fun hex => ?_⟩
  have hkept := hex.queue
  rw [h.1, hq, List.filter_cons_of_pos (by simpa using hfresh)] at hkept
  cases hkept

end XH.Proof.Cutter
