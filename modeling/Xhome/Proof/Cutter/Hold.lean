import Xhome.Impl.Vod.HoldBlock
import Xhome.Proof.Cutter.Blocks
import Xhome.Proof.Cutter.Timeline

/-!
# Hold blocks

The VOD side looks for the off-air tag of a hold block at a fixed place, behind a
cue point. A special block has a cue point if its id is a multiple of the scale,
and ids stay multiples until one wraps at `2^32` (`Aligned`): up to there the
two sides agree (`hold_blocks_recognised`).
-/

namespace XH.Proof.Cutter

open XH.Impl.Cutter XH.Impl.Vod

/-- What the VOD side reads in the ranges of a hold block. -/
structure IsHoldBlock (file : List Byte) : Prop where
  flv : (rangeFlv.bytes file).take 3 = symbolFlv
  hold : rangeHold.bytes file = symbolHold

/-- Such a file is taken for a hold block. -/
theorem IsHoldBlock.verdict {file : List Byte} (h : IsHoldBlock file) (page : List Byte) :
    verdict page file = .holdBlock := by
  have hl₁ : rangeFlv.first < file.length := by
    have := congrArg List.length h.flv
    simp only [rangeFlv, Range.bytes, symbolFlv, List.length_take, List.length_drop, List.length_cons, List.length_nil] at this ⊢
    omega
  have hl₂ : rangeHold.first < file.length := by
    have := congrArg List.length h.hold
    simp only [rangeHold, Range.bytes, symbolHold, List.length_take, List.length_drop, List.length_cons, List.length_nil] at this ⊢
    omega
  have hline : (firstLine (rangeFlv.bytes file)).take 3 = symbolFlv := by
    rw [← List.take_append_drop 3 (rangeFlv.bytes file), h.flv]
    rfl
  rw [Impl.Vod.verdict, fetch, fetch, if_pos hl₁, if_pos hl₂, if_pos hline, h.hold]
  exact if_pos rfl

/-- The id behind a block is a multiple of the scale again: it does not wrap, or
the wrap does not matter. -/
def StaysAligned (S id : Nat) : Prop := id + S < 2 ^ 32 ∨ S ∣ 2 ^ 32

/-! ## The bytes of a special block -/

/-- With its cue point the off-air tag is where it is looked for. -/
theorem isHoldBlock_of_cue {header cue : List Byte} (hh : header.length = 1400) (hc : cue.length = 119) :
    IsHoldBlock (header ++ (flvHeader ++ (cue ++ offairTagData))) := by
  have hd : (header ++ (flvHeader ++ (cue ++ offairTagData))).drop 1627 = offairTagData.drop 95 := by
    rw [← List.append_assoc, ← List.append_assoc,
      show 1627 = (header ++ flvHeader ++ cue).length + 95 by simp only [List.length_append, hh, hc]; rfl,
      List.drop_length_add_append]
  refine ⟨?_, ?_⟩
  · show ((header ++ _).drop 1400).take 3 = _
    rw [List.drop_left' hh]
    rfl
  · show ((header ++ _).drop 1627).take 5 = _
    rw [hd]
    rfl

section
variable {env : Env} {S : Nat} {b : Written}

/-- A hold block in a slot of the scale. -/
theorem Consistent.isHoldBlock (h : Consistent env S b) (ho : env.onairTag = none) (hk : b.kind = .special 0) (hd : S ∣ b.id) :
    IsHoldBlock b.content := by
  obtain ⟨header, hh, hc, -⟩ := h.content
  have hdata : (blockData env S b.kind b.id).flatten = flvHeader ++ (setCheckId checkPointTagData b.id ++ offairTagData) := by
    rw [hk]
    show (flvHeader :: (cueAt S b.id ++ [env.onairTag.getD offairTagData])).flatten = _
    rw [cueAt, if_pos (Nat.mod_eq_zero_of_dvd hd), ho]
    simp
  rw [hc, hdata]
  exact isHoldBlock_of_cue hh (length_setCheckId rfl _)

/-- A special block without the off-air tag ends before the place of that. -/
theorem Consistent.length_blank (h : Consistent env S b) (hk : b.kind = .special 1) : b.content.length ≤ rangeHold.first := by
  obtain ⟨header, hh, hc, -⟩ := h.content
  have hcue : (cueAt S b.id).flatten.length ≤ 119 := by
    rw [Piece.length_flatten]
    exact size_cueAt S b.id
  have hdata : (blockData env S b.kind b.id).flatten.length = 13 + (cueAt S b.id).flatten.length := by
    rw [hk]
    show (flvHeader :: (cueAt S b.id ++ [])).flatten.length = _
    rw [List.append_nil, List.flatten_cons, List.length_append]
    rfl
  rw [hc, List.length_append, hh, hdata]
  show _ ≤ 1627
  omega

end

/-! ## The ids -/

/-- While the ids stay multiples of the scale behind the blocks written, so are
those of the blocks. -/
def BlocksAligned (S : Nat) (s : World) : Prop :=
  (∀ b ∈ s.fs.written, StaysAligned S b.id) → ∀ b ∈ s.fs.written, S ∣ b.id

/-- And so is the next id. -/
structure Aligned (S : Nat) (s : World) : Prop where
  scale : s.w.pieceScale = S
  next : (∀ b ∈ s.fs.written, StaysAligned S b.id) → S ∣ s.w.currentPieceId
  blocks : BlocksAligned S s

section
variable {env : Env} {S : Nat} {s t : World}

/-- A change that touches neither the next slot nor the blocks. -/
theorem Aligned.of_eq (h : Aligned S s) (hs : t.w.pieceScale = s.w.pieceScale) (hi : t.w.currentPieceId = s.w.currentPieceId)
    (hw : t.fs.written = s.fs.written) : Aligned S t :=
  ⟨hs.trans h.scale, by rw [hw, hi]; exact h.next, by rw [BlocksAligned, hw]; exact h.blocks⟩

theorem StaysAligned.dvd_next {id : Nat} (h : StaysAligned S id) (hd : S ∣ id) : S ∣ u32 (id + S) := by
  have hs : S ∣ id + S := Nat.dvd_add hd (Nat.dvd_refl S)
  rcases h with h | h
  · rw [u32_of_lt h]
    exact hs
  · exact (Nat.dvd_mod_iff h).mpr hs

theorem writeBlock_aligned (h : Aligned S s) (fuel : Nat) (kind : BlockKind) (data : Piece) (len n : Nat) :
    WP (writeBlock env fuel kind data len n) s (fun _ t => Aligned S t) (BlocksAligned S) := by
  refine (writeBlock_spec env fuel kind data len n s).mono (fun _ t hw => ?_) fun t ht => ?_
  · have hid : (placed env kind data (headed env len data s)).id = s.w.currentPieceId := rfl
    have hold : (∀ b ∈ t.fs.written, StaysAligned S b.id) →
        (∀ b ∈ s.fs.written, StaysAligned S b.id) ∧ StaysAligned S s.w.currentPieceId := fun hall => by
      rw [hw.written] at hall
      exact ⟨fun b hb => hall b (List.mem_append_left _ hb), hid ▸ hall _ (List.mem_append_right _ (List.mem_singleton_self _))⟩
    refine ⟨by rw [hw.w]; exact h.scale, fun hall => ?_, fun hall b hb => ?_⟩
    · obtain ⟨h₁, h₂⟩ := hold hall
      rw [hw.w]
      show S ∣ u32 (s.w.currentPieceId + s.w.pieceScale)
      rw [h.scale]
      exact h₂.dvd_next (h.next h₁)
    · rw [hw.written] at hb
      rcases List.mem_append.mp hb with hb | hb
      · exact h.blocks (hold hall).1 b hb
      · rw [List.mem_singleton.mp hb]
        exact h.next (hold hall).1
  · intro hall b hb
    have hold : ∀ b ∈ s.fs.written, StaysAligned S b.id := fun b hb => hall b (ht.1.kept b hb)
    rcases ht.1.written b hb with hb | ⟨-, hid, -⟩
    · exact h.blocks hold b hb
    · rw [hid]
      exact h.next hold

theorem writeOneSpecialPiece_aligned (h : Aligned S s) (fuel : Nat) {specialType : Nat} (hty : specialType ≤ 1) :
    WP (writeOneSpecialPiece env fuel specialType) s (fun _ t => Aligned S t) (BlocksAligned S) := by
  have hs : Aligned S (specialStart specialType s) := h.of_eq rfl rfl rfl
  unfold WP
  rw [writeOneSpecialPiece_eq env fuel hty]
  exact writeBlock_aligned hs fuel _ _ _ _

theorem Aligned.of_offRemoval (h : Aligned S s) (hk : offRemoval t = offRemoval s) : Aligned S t := by
  have hw : t.w = s.w := congrArg (·.w) hk
  exact h.of_eq (by rw [hw]) (by rw [hw]) (congrArg (·.fs.written) hk)

/-- The invariant of the writer's thread. -/
theorem aligned_invariant : Invariant env (Aligned S) (Aligned S) (BlocksAligned S) where
  running _ h := h.blocks
  passed _ h := h
  inert h hi := by
    obtain ⟨h₁, h₂, -⟩ := hi.slots env
    exact h.of_eq h₂ h₁ (by rw [hi.fs])
  tick _ h := h.of_eq rfl rfl rfl
  tickPassed _ h := h.of_eq rfl rfl rfl
  special n _ hty h _ := writeOneSpecialPiece_aligned h n hty
  specialPassed n _ h _ := writeOneSpecialPiece_aligned h n le_rfl
  guard _ h _ := h
  begin s h _ := by
    refine ⟨h.scale, fun _ => ?_, h.blocks⟩
    show S ∣ s.now env / s.w.pieceScale * s.w.pieceScale
    rw [h.scale]
    exact Nat.dvd_mul_left _ _
  header _ _ h := h.of_eq rfl rfl rfl
  piece n p s h := by
    have hs : Aligned S (cued s) := h.of_eq rfl rfl rfl
    unfold WP
    rw [writePiece_eq]
    exact writeBlock_aligned hs n _ _ _ _
  expire expired s h :=
    (dropExpired_offRemoval env expired s.fs.pieceFileQueue s).mono (fun _ _ hk => h.of_offRemoval hk)
      fun _ hk => (h.of_offRemoval hk).blocks
  dirs _ _ _ h := h.of_eq rfl rfl rfl
  update h hu := by
    obtain ⟨_, _, _, _, -, -, ⟨_, -, rfl⟩ | ⟨-, rfl⟩⟩ := handleUpdateHeader_cases hu
    · exact h.of_eq rfl rfl rfl
    · exact h.of_eq rfl rfl rfl

/-- The writer after `Init`, on any disk. -/
theorem start_aligned (env : Env) (fuel : Nat) (u : Uninit) (dir : Path) (guid : Name) (S life report : Nat) (disk : Tree) :
    WP (init env fuel 0) (construct u dir guid S life report disk) (fun _ t => Aligned S t) (BlocksAligned S) := by
  have hscan : Aligned S (scanned env (construct u dir guid S life report disk)) :=
    ⟨rfl, fun _ => Nat.dvd_zero S, fun _ _ hb => by cases hb⟩
  refine (aligned_invariant.init fuel 0 (fun _ => hscan) fun d _ => ?_).mono (fun _ _ h => h.1) fun _ h => h
  have hopen : Aligned S (opened d (scanned env (construct u dir guid S life report disk))) := hscan.of_eq rfl rfl rfl
  refine (loadPieces_offRemoval env _ d.path _).mono (fun _ t hk => ?_) fun t hk => (hopen.of_offRemoval hk).blocks
  have ht : Aligned S t := hopen.of_offRemoval hk
  rcases resumePieces_apply 0 t with ⟨f, -, e⟩ | ⟨-, e⟩
  · refine .of_ret e ⟨ht.scale, fun _ => ?_, ht.blocks⟩
    show S ∣ u32 (f.id + t.w.pieceScale) / t.w.pieceScale * t.w.pieceScale
    rw [ht.scale]
    exact Nat.dvd_mul_left _ _
  · exact .of_ret e ht

end

/-- In every state of every run of the writer with its built-in off-air tag, on
whatever disk, with whatever clock and faults: as long as no id has wrapped at
`2^32` (or the scale divides it), each block of `WriteOneSpecialPiece(0)` has
what the VOD side looks for in its two ranges and is taken for a hold block, and
no block of `WriteOneSpecialPiece(1)` reaches the second range. -/
theorem hold_blocks_recognised {env : Env} {fuel : Nat} {u : Uninit} {dir : Path} {guid : Name} {S life report : Nat}
    {disk : Tree} {t : World} (ho : env.onairTag = none) (ht : Shows env (start env fuel u dir guid S life report disk) t)
    (hids : ∀ b ∈ t.fs.written, StaysAligned S b.id) :
    ∀ b ∈ t.fs.written, (b.kind = .special 0 → IsHoldBlock b.content ∧ ∀ page, verdict page b.content = .holdBlock) ∧
      (b.kind = .special 1 → b.content.length ≤ rangeHold.first) := by
  have hs := start_sound env fuel u dir guid S life report disk
  have hf : Filed env S disk t := sound_invariant.shows (fun e => hs.ret e) (fun e => hs.run e) ht
  have ha := start_aligned env fuel u dir guid S life report disk
  have hb : BlocksAligned S t := aligned_invariant.shows (fun e => ha.ret e) (fun e => ha.run e) ht
  intro b hm
  have hc := hf.written b hm
  refine ⟨fun hk => ?_, fun hk => hc.length_blank hk⟩
  have hhold := hc.isHoldBlock ho hk (hb hids b hm)
  exact ⟨hhold, hhold.verdict⟩

/-- The clock goes from `a` to `b` behind its fourth reading. -/
def leap (a b : Nat) : Env := quiet fun n => if n < 4 then a else b

/-- `Init` on an empty disk with the scale 5. -/
def startLeap (a b : Nat) : Res World Nat := start (leap a b) 1 zeroed [] ['g'] 5 100 60 ⟨[], []⟩

/-- A run that is off air behind its first piece. -/
def offAir (a b : Nat) : Option World :=
  (startLeap a b).andThen fun _ w =>
    runEvents (writerStep (leap a b)) w
      [.msg 2 (.writePiece true [flvHeader] 0 0), .msg 2 (.writePiece false [] 0 0), .msg 3 .readerError]

theorem shows_offAir {a b : Nat} {t : World} (h : offAir a b = some t) : Shows (leap a b) (startLeap a b) t := .of_runEvents h

theorem hold_blocks_recognised_offAir :
    ∃ t, Shows (leap 1000 1012) (startLeap 1000 1012) t ∧
      t.fs.written.map (fun b => (b.id, b.content.length)) = [(1000, 1532), (1005, 1644)] ∧
      ∀ b ∈ t.fs.written, b.kind = .special 0 → IsHoldBlock b.content := by
  have h : (offAir 1000 1012).map (fun t => t.fs.written.map fun b => (b.id, b.content.length)) =
      some [(1000, 1532), (1005, 1644)] := by
    decide +kernel
  obtain ⟨t, ht, h⟩ := Option.map_eq_some_iff.mp h
  have hids : ∀ b ∈ t.fs.written, StaysAligned 5 b.id := fun b hb => by
    have hm : (b.id, b.content.length) ∈ [(1000, 1532), (1005, 1644)] := by
      rw [← h]
      exact List.mem_map_of_mem hb
    simp only [List.mem_cons, Prod.mk.injEq, List.not_mem_nil, or_false] at hm
    rcases hm with ⟨e, -⟩ | ⟨e, -⟩
    · rw [e]; exact .inl (by decide)
    · rw [e]; exact .inl (by decide)
  refine ⟨t, shows_offAir ht, h, fun b hb hk => ?_⟩
  exact ((hold_blocks_recognised rfl (shows_offAir ht) hids b hb).1 hk).1

instance (file : List Byte) : Decidable (IsHoldBlock file) :=
  decidable_of_iff ((rangeFlv.bytes file).take 3 = symbolFlv ∧ rangeHold.bytes file = symbolHold)
    ⟨fun h => ⟨h.1, h.2⟩, fun h => ⟨h.flv, h.hold⟩⟩

/-- The clock passes `2^32`: behind the block 4294967295 the id is 4, no multiple
of 5, and the block 4 has no cue point. -/
theorem hold_block_missed :
    ∃ t, Shows (leap 4294967295 10) (startLeap 4294967295 10) t ∧
      ∃ b ∈ t.fs.written, b.kind = .special 0 ∧ b.id = 4 ∧ ¬ IsHoldBlock b.content := by
  have h : (offAir 4294967295 10).bind (fun t => t.fs.written.getLast?.map fun b => (t.fs.written.length, b.kind, b.id,
      decide (IsHoldBlock b.content))) = some (2, .special 0, 4, false) := by
    decide +kernel
  obtain ⟨t, ht, h⟩ := Option.bind_eq_some_iff.mp h
  obtain ⟨b, hb, h⟩ := Option.map_eq_some_iff.mp h
  simp only [Prod.mk.injEq, decide_eq_false_iff_not] at h
  exact ⟨t, shows_offAir ht, b, List.mem_of_getLast? hb, h.2.1, h.2.2.1, h.2.2.2⟩

end XH.Proof.Cutter
