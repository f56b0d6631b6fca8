import Xhome.Proof.Cutter.Blocks
import Xhome.Proof.Cutter.Sync

/-!
# The room in `CHECKSUM_LIST`

A block stores one checksum for each 22400 bytes of its data, and the list has
room for 338. The reader passes on bodies of up to 10 MiB and cuts without
regard to size, so nothing but the stream bounds a piece: as long as each block
fits, every store and the bytes under the digest lie in the header
(`stores_in_list`); a single tag can run over it (`stores_past_list`).
-/

namespace XH.Proof.Cutter

open XH.Impl.Cutter


section
variable {env : Env} {scale : Nat} {disk : Tree}

/-- The state in which the block is written. -/
theorem beforeWrite_sound {s u : World} {go : Bool} {fuel mediaTs : Nat} (hs : Sound env scale disk s)
    (h : beforeWrite env fuel mediaTs s = .ret go u) :
    Sound env scale disk u ∧ u.w.headerPiece = s.w.headerPiece ∧ (go = true → s.w.stat ≠ .firstPiece) := by
  have hb : Sound env scale disk (afterBase mediaTs s) := hs.of_eq rfl rfl rfl rfl rfl rfl rfl
  rw [beforeWrite, Prog.bind_ret (baseHandleWritePiece_apply mediaTs s), Prog.bind_ret (Prog.get_apply _)] at h
  cases hst : (afterBase mediaTs s).w.stat with
  | firstPiece =>
    rw [hst] at h
    cases h
    exact ⟨hb, rfl, fun e => by cases e⟩
  | secondPiece =>
    rw [hst] at h
    obtain ⟨go', t, ht, h⟩ := Prog.ret_of_bind h
    have hsd := (sound_invariant.startPieces fuel hb).ret ht
    have hne : s.w.stat ≠ .firstPiece := fun e => by cases hst.symm.trans e
    have hpt : t.w.headerPiece = (afterBase mediaTs s).w.headerPiece := (startPieces_headerPiece env fuel).ret ht
    cases go' with
    | false => cases h; exact ⟨hsd, hpt, fun _ => hne⟩
    | true => exact ⟨((sound_invariant.checkPieceId fuel hsd).ret h).1, ((checkPieceId_headerPiece env fuel).ret h).trans hpt, fun _ => hne⟩
  | normal =>
    rw [hst] at h
    have hpu : u.w.headerPiece = (afterBase mediaTs s).w.headerPiece := (checkPieceId_headerPiece env fuel).ret h
    exact ⟨((sound_invariant.checkPieceId fuel hb).ret h).1, hpu, fun _ e => by cases hst.symm.trans e⟩

/-! ## Reader and writer -/

/-- Every step of the two parties keeps the writer's invariant. -/
theorem systemStep_sound {s t : System} {e : Event} (hs : Sound env scale disk s.world)
    (h : systemStep env s e = some t) : Sound env scale disk t.world := sound_invariant.systemStep hs h

end

/-- The data of the block that the next handler may write: the header piece, a
cue point and the piece. -/
def blockSize (s : System) : Nat :=
  match s.queue with
  | .writePiece _ piece _ _ :: _ =>
    if s.world.w.stat = .firstPiece then 0
    else Piece.size s.world.w.headerPiece + checkPointTagSize + Piece.size piece
  | _ => 0

/-- The list has room for the next block. -/
def blockFits (s : System) : Event → Prop
  | .handle _ => blockSize s ≤ 338 * 22400
  | _ => True

instance (s : System) : ∀ e, Decidable (blockFits s e)
  | .handle _ => inferInstanceAs (Decidable (_ ≤ _))
  | .alarm _ => .isTrue trivial
  | .tick => .isTrue trivial
  | .opened _ => .isTrue trivial
  | .data _ => .isTrue trivial
  | .lost => .isTrue trivial

/-- The checksum loop and the digest of the block of a piece stay inside
`block_header_`. -/
def InHeader (w : Writer) (piece : Piece) : Prop :=
  (∀ e ∈ checkSumStores (pieceData w piece), e.1 < 338) ∧ blockHeaderLengthOf (pieceLen w piece) ≤ 1400

/-- That is so exactly if the data fits. -/
theorem inHeader_iff {env : Env} {scale : Nat} {w : Writer} (hw : WriterOk env scale w) (piece : Piece) :
    InHeader w piece ↔ Piece.size (pieceData w piece) ≤ 338 * 22400 := by
  have hst := checkSumStores_eq (pieceData w piece)
  constructor
  · rintro ⟨hs, -⟩
    by_contra hn
    have hc : 338 < windowCount flvBlockSize (Piece.size (pieceData w piece)) := by
      have hdm := Nat.div_add_mod (Piece.size (pieceData w piece)) 22400
      show 338 < Piece.size (pieceData w piece) / 22400 + if Piece.size (pieceData w piece) % 22400 ≠ 0 then 1 else 0
      split <;> omega
    exact Nat.lt_irrefl _ (hs _ (hst ▸ List.mem_map_of_mem (List.mem_range.mpr hc)))
  · intro hl
    have hc : windowCount flvBlockSize (Piece.size (pieceData w piece)) ≤ 338 := windowCount_le hl
    have hlen : blockHeaderLengthOf (pieceLen w piece) =
        48 + 4 * windowCount flvBlockSize (Piece.size (pieceData w piece)) := by
      rw [hw.pieceLen, u32_of_lt (hl.trans_lt (by decide))]
      rfl
    refine ⟨fun e he => ?_, by omega⟩
    rw [hst] at he
    obtain ⟨i, hi, rfl⟩ := List.mem_map.mp he
    exact (List.mem_range.mp hi).trans_le hc

/-- In every run whose pieces fit the list, the checksum loop of
`HandleWritePiece` stores into the list and the digest is taken over the header. -/
theorem stores_in_list {env : Env} {fuel : Nat} {u : Uninit} {dir : Path} {guid : Name} {scale life report : Nat}
    {disk : Tree} {mediaTs : Nat} {w : World}
    (hw : start env fuel u dir guid scale life report disk = .ret mediaTs w) (url : List Char) (kf modify : Bool)
    {s : System} (h : Reach (systemStep env) blockFits (startSystem (startReader url kf modify scale mediaTs) w) s)
    {leaving : Bool} {piece : Piece} {seek ts : Nat} {rest : List Msg}
    (hq : s.queue = .writePiece leaving piece seek ts :: rest) {n : Nat} (hf : blockFits s (.handle n)) {t : World}
    (ht : beforeWrite env n ts s.world = .ret true t) :
    handleWritePiece env n piece ts s.world = writePiece env n piece t ∧ InHeader t.w piece := by
  have hw₀ : Sound env scale disk w := (start_sound env fuel u dir guid scale life report disk).ret hw
  have hs : Sound env scale disk s.world :=
    h.invariant (fun s => Sound env scale disk s.world) hw₀ fun s e t hs _ hstep => systemStep_sound hs hstep
  obtain ⟨hts, hp, hst⟩ := beforeWrite_sound hs ht
  have hsize : blockSize s = Piece.size s.world.w.headerPiece + checkPointTagSize + Piece.size piece := by
    simp only [blockSize, hq, if_neg (hst rfl)]
  have hfit : blockSize s ≤ 338 * 22400 := hf
  have hcue := size_cueAt scale t.w.currentPieceId
  constructor
  · rw [handleWritePiece_eq (hst rfl), Prog.bind_ret ht]
    rfl
  · rw [inHeader_iff hts.writer, pieceData, hts.writer.cueOf, Piece.size_append, Piece.size_append, hp]
    omega

/-- A connection, its header piece stored, and a tag in each of two slots. -/
def twoSlots : List Event :=
  connected ++ [.handle 1] ++
    (requests [video 1, video 1001]).map .data

theorem stores_in_list_twoSlots :
    ∃ mediaTs w s, freshStart = .ret mediaTs w ∧
      Reach (systemStep (quiet fun _ => 1000)) blockFits (startSystem (startReader ['u'] false false 1 mediaTs) w) s ∧
      ∃ leaving piece seek ts t, s.queue = [.writePiece leaving piece seek ts] ∧
        beforeWrite (quiet fun _ => 1000) 1 ts s.world = .ret true t ∧ Piece.size piece = 17 ∧ InHeader t.w piece := by
  have h : (freshStart.andThen fun mediaTs w =>
      (runIf (systemStep (quiet fun _ => 1000)) blockFits (startSystem (startReader ['u'] false false 1 mediaTs) w)
        twoSlots).bind fun s => (beforeWrite (quiet fun _ => 1000) 1 1001 s.world).andThen fun go _ =>
          some (s.queue, go, decide (blockFits s (.handle 1)))) =
      some ([.writePiece false (requests [video 1]) 17 1001], true, true) := by
    decide +kernel
  obtain ⟨mediaTs, w, hw, h⟩ := Res.andThen_eq_some h
  obtain ⟨s, hs, h⟩ := Option.bind_eq_some_iff.mp h
  obtain ⟨go, t, ht, h⟩ := Res.andThen_eq_some h
  simp only [Option.some.injEq, Prod.mk.injEq, decide_eq_true_eq] at h
  obtain ⟨hq, rfl, hf⟩ := h
  have hin := stores_in_list hw ['u'] false false (.of_runIf hs) hq hf ht
  exact ⟨mediaTs, w, s, hw, .of_runIf hs, false, requests [video 1], 17, 1001, t, hq, ht, rfl, hin.2⟩

/-! ## A tag that runs over the list -/

/-- The reader behind the heads of a first connection. -/
def behindHeads : Reader :=
  { startReader ['u'] false false 1 0 with
    stat := .needFlvData, readingStat := .flvTaghead, readingBuffer := List.replicate 11 0, readingSize := 11
    op := .receiving 0, curFlvTagType := 9, gotAudioHead := true, gotVideoHead := true, isReaderReady := true
    peddingCutDownTime := 10, startCutDownTime := 0 }

/-- The header of a video tag of 8000000 bytes in the first slot. -/
def bigHead : Buffer := [9, 0x7a, 0x12, 0, 0, 0, 1, 0, 0, 0, 0]

/-- The body is asked for. -/
def behindBigHead : Reader :=
  { behindHeads with
    op := .idle, readingBuffer := bigHead, piece := [bigHead], readingSize := 8000004, readingStat := .flvTagbody
    gotFirstDataTag := true, flvTagTimestamp := 1, seekPointPos := 11 }

/-- The tag is in the piece. -/
def behindBigTag (body : Buffer) : Reader :=
  { behindHeads with
    op := .idle, readingBuffer := body, piece := [bigHead, body], gotFirstDataTag := true, flvTagTimestamp := 1
    seekPointPos := u32 (11 + body.length) }

/-- The header of a tag in the next slot. -/
def nextHead : Buffer := [9, 0, 0, 2, 0, 3, 0xe9, 0, 0, 0, 0]

theorem recv_bigHead : content.recv behindHeads bigHead = (receive behindBigHead, []) := by
  have hp : parse (holding behindHeads bigHead) = ⟨behindBigHead, [], true⟩ := by with_unfolding_all rfl
  rw [recv_whole (r := behindHeads) bigHead rfl rfl rfl (by decide), hp]
  rfl

theorem recv_bigBody {body rest : Buffer} (hb : body = 0x27 :: 1 :: rest) (hl : body.length = 8000004) :
    content.recv (receive behindBigHead) body = (receive (behindBigTag body), []) := by
  have hp : parse (holding (receive behindBigHead) body) = ⟨behindBigTag body, [], true⟩ := by
    subst hb
    with_unfolding_all rfl
  have hr : body.length = (receive behindBigHead).readingBuffer.length := by
    rw [receive, List.length_replicate, hl]; rfl
  rw [recv_whole body rfl hl.symm hr (by omega), hp]
  rfl

/-- The next tag, in its slot. -/
def atNextHead (body : Buffer) : Reader :=
  { behindBigTag body with
    readingBuffer := nextHead, curFlvTagType := 9, flvTagTimestamp := 1001, curFlvTagTs := 1 }

theorem placeTag_nextHead (body : Buffer) :
    placeTag (holding (receive (behindBigTag body)) nextHead) = atNextHead body := by
  have hts : getTagTs nextHead = 1001 := rfl
  show slotTag (stampTag (beginData (typeTag (holding (receive (behindBigTag body)) nextHead)) (getTagTs nextHead))
    (getTagTs nextHead)) = _
  rw [hts]
  generalize hr : typeTag (holding (receive (behindBigTag body)) nextHead) = r
  have hd : r.flvTagTsDelta = 0 := by rw [← hr]; rfl
  have ht : r.flvTagTimestamp = 1 := by rw [← hr]; rfl
  have hs : r.cutScale = 1000 := by rw [← hr]; rfl
  have hp : r.curPieceTs = 0 := by rw [← hr]; rfl
  have hb : beginData r 1001 = r := if_pos (by rw [← hr]; rfl)
  have hst : stampTag r 1001 = setTs r 1001 r.flvTagTsDelta := by
    rw [stampTag, if_neg (by rw [hd]; decide), if_neg (by rw [ht]; decide)]
  have hsl : slotTag (setTs r 1001 r.flvTagTsDelta) = { setTs r 1001 r.flvTagTsDelta with curFlvTagTs := 1 } := by
    simp only [slotTag, setTs, hs, hp, noPieceTs, Nat.reduceDiv, Nat.reduceEqDiff, ite_false]
  rw [hb, hst, hsl, ← hr]
  rfl

/-- The piece is posted at the next slot. -/
theorem recv_nextHead (body : Buffer) :
    content.recv (receive (behindBigTag body)) nextHead =
      (receive (appendTagHead (advanceSlot (atNextHead body)).1),
        [.asyncWritePiece [bigHead, body] (u32 (11 + body.length)) 1001]) := by
  have hd : tsDelta (atNextHead body) = i32 (sub32 1 0) := rfl
  have hc : cutTag (atNextHead body) = some (advanceSlot (atNextHead body)) := by
    rw [cutTag, if_pos (by rw [hd]; decide)]
  have ht : flvDataTaghead (holding (receive (behindBigTag body)) nextHead) =
      ⟨appendTagHead (advanceSlot (atNextHead body)).1, (advanceSlot (atNextHead body)).2, true⟩ := by
    have hv : tagType nextHead = flvVideodata := by decide
    rw [flvDataTaghead, if_pos (.inr hv), placeTag_nextHead, hc]
  rw [recv_whole (r := receive (behindBigTag body)) nextHead rfl rfl rfl (by decide)]
  have hr : (appendTagHead (advanceSlot (atNextHead body)).1).readingSize = tagDatasize nextHead + 4 :=
    congrArg (tagDatasize · + 4) (advanceSlot_frame (atNextHead body)).1
  have hk : (atNextHead body).cutWithKf = false := rfl
  have hp : parse (holding (receive (behindBigTag body)) nextHead) =
      flvDataTaghead (holding (receive (behindBigTag body)) nextHead) := by
    have hst : (holding (receive (behindBigTag body)) nextHead).stat = .needFlvData := rfl
    have hrs : (holding (receive (behindBigTag body)) nextHead).readingStat = .flvTaghead := rfl
    simp only [parse, hst, hrs]
  rw [hp, ht, finish, if_pos rfl, if_neg (by rw [hr]; decide)]
  simp only [advanceSlot, hk, Bool.false_eq_true, ite_false]
  rfl

/-- The first piece of the run: the timeline begins at the present. -/
def started (env : Env) (s : World) : World :=
  { s with
    reads := s.reads + 2
    w := { s.w with currentPieceId := env.utc (s.reads + 1) / s.w.pieceScale * s.w.pieceScale, stat := .normal } }

theorem startPieces_zero {env : Env} {fuel : Nat} {s : World} (h : s.w.currentPieceId = 0) :
    startPieces env fuel s = .ret true (started env s) := by
  have h₁ : ¬ (ticked s).w.currentPieceId > env.utc s.reads := by show ¬ s.w.currentPieceId > _; omega
  have h₂ : ¬ (ticked s).w.currentPieceId > 0 := by show ¬ s.w.currentPieceId > 0; omega
  rw [startPieces, Prog.bind_ret (getUTC_apply env s), Prog.bind_ret (Prog.get_apply _), if_neg h₁, if_neg h₂]
  rfl

/-- A receive completion as a step of the system. -/
theorem systemStep_data {env : Env} {s : System} (bytes : List Byte) (ho : s.reader.op = .receiving 0)
    (h₀ : 0 < bytes.length) (hl : bytes.length ≤ s.reader.readingSize) :
    systemStep env s (.data bytes) = some (applyReader s (content.recv s.reader bytes)) := by
  simp only [systemStep, readerStep, ho, if_pos (And.intro h₀ hl), Option.map_some, content]

/-- The tag, and the piece posted at the next one. -/
theorem run_bigTag (env : Env) {body rest : Buffer} (hb : body = 0x27 :: 1 :: rest) (hl : body.length = 8000004)
    {s : System} (hr : s.reader = behindHeads) (hn : s.world.w.writingPieceNum = 0) :
    ∃ t seek, runEvents (systemStep env) s [.data bigHead, .data body, .data nextHead] = some t ∧
      t.queue = s.queue ++ [.writePiece false [bigHead, body] seek 1001] ∧
      t.world = { s.world with w := { s.world.w with writingPieceNum := 1 } } := by
  have h₁ : systemStep env s (.data bigHead) = some { s with reader := receive behindBigHead } := by
    rw [systemStep_data bigHead (by rw [hr]; rfl) (by decide) (by rw [hr]; decide), hr, recv_bigHead]
    rfl
  have h₂ : systemStep env { s with reader := receive behindBigHead } (.data body) =
      some { s with reader := receive (behindBigTag body) } := by
    rw [systemStep_data body rfl (by omega) (by rw [hl]; exact le_rfl), recv_bigBody hb hl]
    rfl
  have h₃ : systemStep env { s with reader := receive (behindBigTag body) } (.data nextHead) =
      some { s with
        reader := receive (appendTagHead (advanceSlot (atNextHead body)).1)
        world := { s.world with w := { s.world.w with writingPieceNum := 1 } }
        queue := s.queue ++ [.writePiece false [bigHead, body] (u32 (11 + body.length)) 1001] } := by
    rw [systemStep_data nextHead rfl (by decide) le_rfl, recv_nextHead, applyReader]
    simp only [List.foldl_cons, List.foldl_nil, post, hn]
    rfl
  exact ⟨_, u32 (11 + body.length), by
    rw [runEvents, runIf, if_pos trivial, h₁, Option.bind_some, runIf, if_pos trivial, h₂, Option.bind_some, runIf,
      if_pos trivial, h₃]
    rfl, rfl, rfl⟩

/-- A video tag of 8000000 bytes, below the limit of the reader, makes the
checksum loop store past the list and the digest read past the header. -/
theorem stores_past_list :
    ∃ mediaTs w s, freshStart = .ret mediaTs w ∧
      runEvents (systemStep (quiet fun _ => 1000)) (startSystem (startReader ['u'] false false 1 mediaTs) w)
        (connected ++ [.handle 1] ++
          [.data bigHead, .data (0x27 :: 1 :: List.replicate 8000002 0), .data nextHead]) = some s ∧
      ∃ piece seek ts t, s.queue = [.writePiece false piece seek ts] ∧
        beforeWrite (quiet fun _ => 1000) 1 ts s.world = .ret true t ∧
        (∃ e ∈ checkSumStores (pieceData t.w piece), 338 ≤ e.1) ∧ 1400 < blockHeaderLengthOf (pieceLen t.w piece) := by
  have h : (freshStart.andThen fun mediaTs w =>
      (runEvents (systemStep (quiet fun _ => 1000)) (startSystem (startReader ['u'] false false 1 mediaTs) w)
        (connected ++ [.handle 1])).map fun s =>
          ((s.reader, s.queue, s.world.w.writingPieceNum, s.world.w.stat),
            s.world.w.currentPieceId, s.world.w.pieceScale, Piece.size s.world.w.headerPiece)) =
      some ((behindHeads, [], 0, .secondPiece), 0, 1, 47) := by
    decide +kernel
  obtain ⟨mediaTs, w, hw, h⟩ := Res.andThen_eq_some h
  obtain ⟨s, hs, h⟩ := Option.map_eq_some_iff.mp h
  simp only [Prod.mk.injEq] at h
  obtain ⟨⟨hr, hq, hn, hst⟩, hid, hsc, hhs⟩ := h
  have hl : ((0x27 : Byte) :: 1 :: List.replicate 8000002 0).length = 8000004 := by
    rw [List.length_cons, List.length_cons, List.length_replicate]
  generalize hb : (0x27 : Byte) :: 1 :: List.replicate 8000002 0 = body at hl ⊢
  obtain ⟨t, seek, ht, htq, htw⟩ := run_bigTag (quiet fun _ => 1000) hb.symm hl hr hn
  have hrun := runIf_append ht hs
  -- the state in which the block is written
  have hbw : beforeWrite (quiet fun _ => 1000) 1 1001 t.world =
      .ret true (ticked (started (quiet fun _ => 1000) (afterBase 1001 t.world))) := by
    have hst : (afterBase 1001 t.world).w.stat = .secondPiece := by rw [htw]; exact hst
    have hid : (afterBase 1001 t.world).w.currentPieceId = 0 := by rw [htw]; exact hid
    have hsc : (afterBase 1001 t.world).w.pieceScale = 1 := by rw [htw]; exact hsc
    rw [beforeWrite, Prog.bind_ret (baseHandleWritePiece_apply 1001 t.world), Prog.bind_ret (Prog.get_apply _), hst]
    show (startPieces _ 1 >>= _) _ = _
    rw [Prog.bind_ret (startPieces_zero hid)]
    exact checkPieceId_apply _ 1 (by simp [started, hsc, quiet, u32])
      (by simp [started, hsc, quiet, Writer.needCheckID, idCheckScale])
  refine ⟨mediaTs, w, t, hw, hrun, [bigHead, body], seek, 1001, _, by rw [htq, hq]; rfl, hbw, ?_⟩
  have hstart : Sound (quiet fun _ => 1000) 1 ⟨[], []⟩ w :=
    (start_sound (quiet fun _ => 1000) 1 zeroed [] ['g'] 1 100 60 ⟨[], []⟩).ret (show init _ _ _ _ = _ from hw)
  have hsound : Sound (quiet fun _ => 1000) 1 ⟨[], []⟩ t.world :=
    (Reach.of_runIf hrun).invariant (fun s => Sound (quiet fun _ => 1000) 1 ⟨[], []⟩ s.world) hstart
      fun s e t hs _ hstep => systemStep_sound hs hstep
  obtain ⟨hu, hp, -⟩ := beforeWrite_sound hsound hbw
  have hhead : Piece.size t.world.w.headerPiece = 47 := by rw [htw]; exact hhs
  generalize ticked (started (quiet fun _ => 1000) (afterBase 1001 t.world)) = u at hu hp ⊢
  have hsize : Piece.size (pieceData u.w [bigHead, body]) = 47 + Piece.size (cueOf u.w) + 8000015 := by
    rw [pieceData, Piece.size_append, Piece.size_append, hp, hhead, Piece.size_cons, Piece.size_cons, Piece.size_nil, hl]
    rfl
  have hcue : Piece.size (cueOf u.w) ≤ 119 := by rw [hu.writer.cueOf]; exact size_cueAt 1 _
  have hst := checkSumStores_eq (pieceData u.w [bigHead, body])
  have hc : 338 < windowCount 22400 (Piece.size (pieceData u.w [bigHead, body])) := by
    rw [windowCount]; split <;> omega
  refine ⟨⟨_, hst ▸ List.mem_map_of_mem (List.mem_range.mpr hc), le_rfl⟩, ?_⟩
  have hlen : blockHeaderLengthOf (pieceLen u.w [bigHead, body]) =
      48 + 4 * windowCount 22400 (Piece.size (pieceData u.w [bigHead, body])) := by
    rw [hu.writer.pieceLen, u32_of_lt (by omega)]
    rfl
  omega

end XH.Proof.Cutter
