import Xhome.Proof.Cutter.Frame
import Xhome.Proof.Cutter.Tags

/-!
# Which piece is the header

The writer takes the first piece after its start and after each `ReaderError`
for the header piece. The messages in its queue are such that this is the piece
the reader posted while leaving `STAT_NEED_HEAD` (`Synced`), as long as no such
piece is dropped at the limit of `AsyncWritePiece` (`header_agreement`); with
50 pieces pending a header piece is dropped, and after the next `ReaderError`
a data piece is taken for the header (`header_dropped`).
-/

namespace XH.Proof.Cutter

open XH.Impl.Cutter

/-- Handled in order by a writer that waits for a header piece or not (`first`),
the messages are header pieces where one is waited for and data pieces
elsewhere; then it waits for a header piece or not (`last`). -/
def Synced (first : Bool) : List Msg → Bool → Prop
  | [], last => first = last
  | .writePiece leaving _ _ _ :: q, last => leaving = first ∧ Synced false q last
  | .updateHeader _ _ :: q, last => Synced first q last
  | .readerError :: q, last => Synced true q last

theorem Synced.append {r : List Msg} {b c : Bool} :
    ∀ {a : Bool} {q : List Msg}, Synced a q b → Synced b r c → Synced a (q ++ r) c
  | _, [], h, h' => by cases h; exact h'
  | _, .writePiece _ _ _ _ :: q, h, h' => ⟨h.1, Synced.append (q := q) h.2 h'⟩
  | _, .updateHeader _ _ :: q, h, h' => Synced.append (q := q) h h'
  | _, .readerError :: q, h, h' => Synced.append (q := q) h h'

/-! ## The reader's calls -/

/-- The reader receives the data of a connection whose header has been posted. -/
def inData (r : Reader) : Bool :=
  match r.op with
  | .receiving _ => decide (r.stat = .needFlvData)
  | _ => false

theorem inData_receiving {r : Reader} {pos : Nat} (h : r.op = .receiving pos) :
    inData r = decide (r.stat = .needFlvData) := by
  simp only [inData, h]

theorem inData_idle {r : Reader} (h : r.op = .idle) : inData r = false := by
  simp only [inData, h]

/-- The calls of a step: no `ReaderError`, or one at the end of the connection;
a piece of the header phase is posted on leaving it. -/
def Outcome (r : Reader) (out : Reader × List Call) : Prop :=
  ∃ cs, .readerError ∉ cs ∧
    ((out.2 = cs ∧ ∃ pos, out.1.op = .receiving pos) ∨ (out.2 = cs ++ [.readerError] ∧ out.1.op = .idle)) ∧
    ((out.1.stat = r.stat ∧ (r.stat = .needHead → cs = [])) ∨
      (r.stat = .needHead ∧ out.1.stat = .needFlvData ∧ ∃ p, cs = [.asyncWritePiece p 0 0]))

/-- The calls and states of a step of the parser that goes on. -/
theorem parse_resume {r : Reader} (h : (parse r).resume = true) :
    .readerError ∉ (parse r).calls ∧
    (((parse r).reader.stat = r.stat ∧ (r.stat = .needHead → (parse r).calls = [])) ∨
      (r.stat = .needHead ∧ (parse r).reader.stat = .needFlvData ∧ ∃ p, (parse r).calls = [.asyncWritePiece p 0 0])) := by
  cases hs : r.stat with
  | needHead =>
    rcases parse_needHead hs with ⟨-, hc, hst⟩ | ⟨-, ⟨p, hc⟩, hst⟩ | ⟨hr, -⟩
    · exact ⟨by rw [hc]; simp, .inl ⟨hst, fun _ => hc⟩⟩
    · exact ⟨by rw [hc]; simp, .inr ⟨rfl, hst, p, hc⟩⟩
    · rw [h] at hr; cases hr
  | needFlvData =>
    rcases parse_needFlvData hs with ⟨-, hc, hst⟩ | ⟨hr, -⟩
    · exact ⟨hc, .inl ⟨hst, fun e => by cases e⟩⟩
    · rw [h] at hr; cases hr

/-- A restart makes one call. -/
theorem parse_restart {r : Reader} (h : (parse r).resume = false) :
    (parse r).calls = [.readerError] ∧ (parse r).reader.stat = r.stat := by
  cases hs : r.stat with
  | needHead =>
    rcases parse_needHead hs with ⟨hr, -⟩ | ⟨hr, -⟩ | ⟨-, hc, hst⟩
    · rw [h] at hr; cases hr
    · rw [h] at hr; cases hr
    · exact ⟨hc, hst⟩
  | needFlvData =>
    rcases parse_needFlvData hs with ⟨hr, -⟩ | ⟨-, hc, hst⟩
    · rw [h] at hr; cases hr
    · exact ⟨hc, hst⟩

theorem finish_outcome {r : Reader} (ho : r.op = .idle) : Outcome r (finish (parse r)) := by
  have hi : (parse r).reader.op = .idle := (parse_op r).trans ho
  unfold finish
  split
  · rename_i hr
    obtain ⟨hc, hs⟩ := parse_resume hr
    split
    · exact ⟨_, hc, .inr ⟨rfl, hi⟩, hs⟩
    · exact ⟨_, hc, .inl ⟨rfl, 0, rfl⟩, hs⟩
  · obtain ⟨hc, hs⟩ := parse_restart (Bool.eq_false_iff.mpr ‹_›)
    exact ⟨[], by simp, .inr ⟨hc, hi⟩, .inl ⟨hs, fun _ => rfl⟩⟩

theorem onContent_outcome (r : Reader) (pos : Nat) {data : List Byte} (h : 0 < data.length) :
    Outcome r (onContent r pos data) := by
  rw [onContent, if_pos h, onData]
  dsimp only
  split
  · exact ⟨[], by simp, .inl ⟨rfl, _, rfl⟩, .inl ⟨rfl, fun _ => rfl⟩⟩
  · exact finish_outcome rfl

/-- A connection stays ready until it ends. -/
theorem onContent_ready (r : Reader) (pos : Nat) {data : List Byte} (h : 0 < data.length) {pos' : Nat}
    (ho : (onContent r pos data).1.op = .receiving pos') : (onContent r pos data).1.isReaderReady = r.isReaderReady := by
  rw [onContent, if_pos h, onData] at ho ⊢
  dsimp only at ho ⊢
  split
  · rfl
  · rename_i hl
    rw [if_neg hl] at ho
    rcases finish_cases (parse_op { r with
      op := .idle, peddingCutDownTime := csPeddingCutDownTime
      readingBuffer := overwrite r.readingBuffer pos data }) with hi | ⟨hr, hf⟩
    · rw [hi] at ho; cases ho
    · rw [hf]; exact parse_isReaderReady hr

/-! ## Posting -/

theorem post_frame (l : Bool) (s : System) (c : Call) :
    (post l s c).reader = s.reader ∧ (post l s c).world.w.stat = s.world.w.stat := by
  cases c with
  | asyncWritePiece p seek ts => simp only [post]; split <;> exact ⟨rfl, rfl⟩
  | asyncUpdateHeader head body => exact ⟨rfl, rfl⟩
  | readerError => exact ⟨rfl, rfl⟩

theorem foldl_post_frame (l : Bool) :
    ∀ (cs : List Call) (s : System),
      (cs.foldl (post l) s).reader = s.reader ∧ (cs.foldl (post l) s).world.w.stat = s.world.w.stat
  | [], _ => ⟨rfl, rfl⟩
  | c :: cs, s => by
    obtain ⟨h₁, h₂⟩ := foldl_post_frame l cs (post l s c)
    obtain ⟨h₃, h₄⟩ := post_frame l s c
    exact ⟨h₁.trans h₃, h₂.trans h₄⟩

/-- Data pieces, dropped or not, leave the writer with the header it has. -/
theorem foldl_post_synced {a : Bool} :
    ∀ (cs : List Call) {s : System}, .readerError ∉ cs → Synced a s.queue false →
      Synced a (cs.foldl (post false) s).queue false
  | [], _, _, h => h
  | c :: cs, s, hc, h => by
    simp only [List.mem_cons, not_or] at hc
    apply foldl_post_synced cs hc.2
    cases c with
    | asyncWritePiece p seek ts =>
      simp only [post]
      split
      · exact h.append ⟨rfl, rfl⟩
      · exact h
    | asyncUpdateHeader head body => exact h.append (by rfl)
    | readerError => exact absurd rfl hc.1

/-- A header piece is posted while fewer than 50 pieces are pending. -/
def headerFits (s : System) (e : Event) : Prop :=
  ∀ out, readerStep s.reader e = some out → leavesNeedHead s.reader out.1 = true →
    s.world.w.writingPieceNum < maxWritingPieces

instance (s : System) (e : Event) : Decidable (headerFits s e) :=
  match h : readerStep s.reader e with
  | none => isTrue fun _ h' => by rw [h] at h'; cases h'
  | some out => decidable_of_iff (leavesNeedHead s.reader out.1 = true → s.world.w.writingPieceNum < maxWritingPieces)
    ⟨fun hf _ h' => by rw [h] at h'; cases h'; exact hf, fun hf => hf out h⟩

/-- The queue after the calls of a step of a receiving reader. -/
theorem applyReader_synced {a : Bool} {s : System} {out : Reader × List Call} {pos : Nat}
    (ho : s.reader.op = .receiving pos) (hout : Outcome s.reader out)
    (hf : leavesNeedHead s.reader out.1 = true → s.world.w.writingPieceNum < maxWritingPieces)
    (h : Synced a s.queue (!inData s.reader)) : Synced a (applyReader s out).queue (!inData out.1) := by
  obtain ⟨cs, hc, hop, hst⟩ := hout
  rw [inData_receiving ho] at h
  -- the calls before a `ReaderError`
  have hq : Synced a (cs.foldl (post (leavesNeedHead s.reader out.1)) { s with reader := out.1 }).queue
      (!decide (out.1.stat = .needFlvData)) := by
    rcases hst with ⟨hs, hn⟩ | ⟨hs, hs', p, rfl⟩
    · cases hr : s.reader.stat with
      | needHead => rw [hn hr, hs, hr]; rw [hr] at h; exact h
      | needFlvData =>
        have hl : leavesNeedHead s.reader out.1 = false := by simp [leavesNeedHead, hr]
        rw [hs, hl, hr]
        rw [hr] at h
        exact foldl_post_synced _ hc h
    · have hl : leavesNeedHead s.reader out.1 = true := by simp [leavesNeedHead, hs, hs']
      rw [hs] at h
      rw [hs', hl, List.foldl_cons, List.foldl_nil, post, if_pos (hf hl)]
      exact h.append ⟨rfl, rfl⟩
  rcases hop with ⟨he, pos', ho'⟩ | ⟨he, ho'⟩
  · rw [applyReader, he, inData_receiving ho']
    exact hq
  · rw [applyReader, he, inData_idle ho', List.foldl_append]
    exact hq.append (by rfl)

/-! ## Runs -/

/-- The reader and the writer agree on the header. -/
structure Agree (s : System) : Prop where
  queue : Synced (decide (s.world.w.stat = .firstPiece)) s.queue (!inData s.reader)
  ready : ∀ {pos}, s.reader.op = .receiving pos → s.reader.isReaderReady = true
  opening : s.reader.op = .opening → s.reader.stat = .needHead

theorem Agree.reader {s : System} {out : Reader × List Call} {pos : Nat} (hs : Agree s)
    (ho : s.reader.op = .receiving pos) (hout : Outcome s.reader out)
    (hf : leavesNeedHead s.reader out.1 = true → s.world.w.writingPieceNum < maxWritingPieces)
    (hr : ∀ {pos'}, out.1.op = .receiving pos' → out.1.isReaderReady = true) : Agree (applyReader s out) := by
  obtain ⟨hfr, hfs⟩ := foldl_post_frame (leavesNeedHead s.reader out.1) out.2 { s with reader := out.1 }
  have hfr : (applyReader s out).reader = out.1 := hfr
  have hfs : (applyReader s out).world.w.stat = s.world.w.stat := hfs
  refine ⟨?_, ?_, ?_⟩
  · rw [hfr, hfs]; exact applyReader_synced ho hout hf hs.queue
  · rw [hfr]; exact hr
  · obtain ⟨-, -, ⟨-, _, h⟩ | ⟨-, h⟩, -⟩ := hout
    · rw [hfr, h]; exact fun e => by cases e
    · rw [hfr, h]; exact fun e => by cases e

/-- A tick opens a connection only where none is open. -/
theorem Agree.tick {s : System} (hs : Agree s) : Agree { s with reader := readerOnClockAlarm s.reader } := by
  unfold readerOnClockAlarm
  split
  · exact ⟨hs.queue, hs.ready, hs.opening⟩
  · rename_i hr
    have hn : ∀ {pos}, s.reader.op ≠ .receiving pos := fun h => hr (hs.ready h)
    have hd : inData s.reader = false := by
      unfold inData
      split
      · exact absurd ‹_› hn
      · rfl
    have hq := hs.queue
    rw [hd] at hq
    dsimp only
    split
    · unfold doBegin
      split
      · exact ⟨hq, (fun h => by cases h), fun _ => rfl⟩
      · exact ⟨hq, (fun h => by cases h), fun h => by cases h⟩
    · exact ⟨hs.queue, hs.ready, hs.opening⟩

theorem Agree.opened {s : System} (hs : Agree s) (ho : s.reader.op = .opening) (ok : Bool) :
    Agree { s with reader := onHttpOpen s.reader ok } := by
  have hd : inData s.reader = false := by simp only [inData, ho]
  have hq := hs.queue
  rw [hd] at hq
  cases ok with
  | false => exact ⟨hq, (fun h => by cases h), fun h => by cases h⟩
  | true =>
    have hd' : inData (onHttpOpen s.reader true) = false := by
      rw [inData_receiving (show (onHttpOpen s.reader true).op = .receiving 0 from rfl)]
      exact decide_eq_false fun h => by cases (hs.opening ho).symm.trans h
    exact ⟨by rw [hd']; exact hq, fun _ => rfl, fun h => by cases h⟩

/-- The handler of the oldest message does to the writer's state what the queue
says. -/
theorem handle_synced {env : Env} {fuel : Nat} {m : Msg} {w t : World} {q : List Msg} {last : Bool}
    (h : handle env fuel m w = .ret () t) (hq : Synced (decide (w.w.stat = .firstPiece)) (m :: q) last) :
    Synced (decide (t.w.stat = .firstPiece)) q last := by
  cases m with
  | writePiece leaving p seek ts =>
    have hts : t.w.stat ≠ .firstPiece := by
      by_cases hs : w.w.stat = .firstPiece
      · obtain ⟨t', ht', hs', -, -⟩ := handleWritePiece_firstPiece env fuel p ts hs
        cases ht'.symm.trans h
        rw [hs']; decide
      · exact (handleWritePiece_stat env fuel p ts hs).ret h
    rw [decide_eq_false hts]
    exact hq.2
  | updateHeader head body =>
    rw [handleUpdateHeader_stat h]
    exact hq
  | readerError =>
    rw [decide_eq_true ((handleReaderError_stat env fuel w).ret h)]
    exact hq

theorem Agree.step {env : Env} {s t : System} {e : Event} (hs : Agree s) (hf : headerFits s e)
    (h : systemStep env s e = some t) : Agree t := by
  cases e with
  | tick => cases h; exact hs.tick
  | opened ok =>
    simp only [systemStep, readerStep] at h
    split at h
    · cases h; exact hs.opened ‹_› ok
    · cases h
  | data bytes =>
    simp only [systemStep, readerStep] at h
    split at h
    · rename_i pos ho
      split at h
      · rename_i hl
        cases h
        refine hs.reader ho (onContent_outcome _ _ hl.1) (fun hl' => hf _ ?_ hl') fun ho' => ?_
        · simp only [readerStep, ho, hl, and_self, ite_true]
        · rw [onContent_ready _ _ hl.1 ho']; exact hs.ready ho
      · cases h
    · cases h
  | lost =>
    simp only [systemStep, readerStep] at h
    split at h
    · rename_i pos ho
      cases h
      refine hs.reader ho ⟨[], by simp, .inr ⟨rfl, rfl⟩, .inl ⟨rfl, fun _ => rfl⟩⟩ (fun hl => ?_) fun ho' => by cases ho'
      obtain ⟨h₁, h₂⟩ := of_decide_eq_true hl
      cases h₁.symm.trans h₂
    · cases h
  | handle fuel =>
    simp only [systemStep] at h
    split at h
    · rename_i m rest hq
      obtain ⟨t', ht', rfl⟩ := Option.map_eq_some_iff.mp h
      obtain ⟨a, ha⟩ := Res.returned_eq_some ht'
      have hsync := hs.queue
      rw [hq] at hsync
      exact ⟨handle_synced ha hsync, hs.ready, hs.opening⟩
    · cases h
  | alarm fuel =>
    simp only [systemStep] at h
    obtain ⟨t', ht', rfl⟩ := Option.map_eq_some_iff.mp h
    obtain ⟨a, ha⟩ := Res.returned_eq_some ht'
    have hst : t'.w.stat = s.world.w.stat := stat_of_kept ((onClockAlarm_kept env fuel).ret ha)
    exact ⟨by rw [hst]; exact hs.queue, hs.ready, hs.opening⟩

theorem agree_start {w : World} (h : w.w.stat = .firstPiece) (url : List Char) (kf modify : Bool) (scale ts : Nat) :
    Agree (startSystem (startReader url kf modify scale ts) w) :=
  ⟨decide_eq_true h, (fun h => by cases h), fun h => by cases h⟩

/-- In a run that drops no header piece, the writer stores a piece as the header
exactly if the reader posted it while leaving `STAT_NEED_HEAD`, and then no
block is written. -/
theorem header_agreement {env : Env} {fuel : Nat} {u : Uninit} {dir : Path} {guid : Name} {scale life report : Nat}
    {disk : Tree} {mediaTs : Nat} {w : World}
    (hw : start env fuel u dir guid scale life report disk = .ret mediaTs w) (url : List Char) (kf modify : Bool)
    {s : System} (h : Reach (systemStep env) headerFits (startSystem (startReader url kf modify scale mediaTs) w) s)
    {leaving : Bool} {piece : Piece} {seek ts : Nat} {rest : List Msg}
    (hq : s.queue = .writePiece leaving piece seek ts :: rest) :
    (s.world.w.stat = .firstPiece ↔ leaving = true) ∧
    ∀ {n : Nat} {t : System}, systemStep env s (.handle n) = some t → leaving = true →
      t.world.w.headerPiece = piece ∧ t.world.fs.written = s.world.fs.written := by
  have hst : w.w.stat = .firstPiece := (init_stat env fuel 0).ret hw
  have ha := h.invariant Agree (agree_start hst url kf modify scale mediaTs) fun _ _ _ hs hf hstep => hs.step hf hstep
  have hl : leaving = decide (s.world.w.stat = .firstPiece) := by
    have := ha.queue
    rw [hq] at this
    exact this.1
  have hiff : s.world.w.stat = .firstPiece ↔ leaving = true := by rw [hl, decide_eq_true_iff]
  refine ⟨hiff, fun {n t} hstep hlv => ?_⟩
  obtain ⟨t', ht', -, hp, hfs⟩ := handleWritePiece_firstPiece env n piece ts (hiff.mpr hlv)
  simp only [systemStep, hq, handle, ht', Res.returned, Option.map_some, Option.some.injEq] at hstep
  subst hstep
  exact ⟨hp, congrArg Storage.written hfs⟩

/-- A connection: three ticks, the file header and both heads. -/
def connected : List Event :=
  [.tick, .tick, .tick, .opened true, .data flvHeader] ++
    (requests heads).map .data

/-- The writer at the time 1000 on an empty disk. -/
def freshStart : Res World Nat := start (quiet fun _ => 1000) 1 zeroed [] ['g'] 1 100 60 ⟨[], []⟩

/-- The header piece of a first connection. -/
def firstHeader : Piece := flvHeader :: requests heads

theorem header_agreement_connected :
    ∃ mediaTs w s, freshStart = .ret mediaTs w ∧
      Reach (systemStep (quiet fun _ => 1000)) headerFits (startSystem (startReader ['u'] false false 1 mediaTs) w) s ∧
      s.queue = [.writePiece true firstHeader 0 0] ∧ (s.world.w.stat = .firstPiece ↔ true = true) := by
  have h : (freshStart.andThen fun mediaTs w =>
      (runIf (systemStep (quiet fun _ => 1000)) headerFits (startSystem (startReader ['u'] false false 1 mediaTs) w)
        connected).map System.queue) = some [.writePiece true firstHeader 0 0] := by
    decide +kernel
  obtain ⟨mediaTs, w, hw, h⟩ := Res.andThen_eq_some h
  obtain ⟨s, hs, hq⟩ := Option.map_eq_some_iff.mp h
  exact ⟨mediaTs, w, s, hw, .of_runIf hs, hq, (header_agreement hw ['u'] false false (.of_runIf hs) hq).1⟩

/-- A video tag in each of `n` slots, the last one `k`. -/
def slots (k : Nat) : Nat → List Event
  | 0 => []
  | n + 1 => slots (k - 1) n ++ (requests [video (1000 * k)]).map .data

/-- A connection with a burst of 49 slots while the writer is held up, a second
one with its heads only, then the writer's 51 handlers and a slot more. -/
def burst : List Event :=
  connected ++ slots 49 49 ++ [.lost] ++ connected ++ List.replicate 51 (.handle 2) ++ slots 50 1

/-- The header piece of the second connection is dropped with 50 pieces pending,
and a data piece is stored in its place. -/
theorem header_dropped :
    ∃ mediaTs w s, freshStart = .ret mediaTs w ∧
      runEvents (systemStep (quiet fun _ => 1000)) (startSystem (startReader ['u'] false false 1 mediaTs) w) burst =
        some s ∧
      s.queue = [.writePiece false [] 0 50000] ∧
      ∃ t, systemStep (quiet fun _ => 1000) s (.handle 0) = some t ∧ t.world.w.headerPiece = [] := by
  have h : (freshStart.andThen fun mediaTs w =>
      (runEvents (systemStep (quiet fun _ => 1000)) (startSystem (startReader ['u'] false false 1 mediaTs) w) burst).map
        fun s => (s.world.w.stat, s.queue)) = some (.firstPiece, [.writePiece false [] 0 50000]) := by
    decide +kernel
  obtain ⟨mediaTs, w, hw, h⟩ := Res.andThen_eq_some h
  obtain ⟨s, hs, h⟩ := Option.map_eq_some_iff.mp h
  have hq : s.queue = [.writePiece false [] 0 50000] := congrArg Prod.snd h
  obtain ⟨t, ht, -, hp, -⟩ := handleWritePiece_firstPiece (quiet fun _ => 1000) 0 [] 50000 (congrArg Prod.fst h)
  refine ⟨mediaTs, w, s, hw, hs, hq, { s with world := t, queue := [] }, ?_, hp⟩
  simp only [systemStep, hq, handle, ht, Res.returned, Option.map_some]

end XH.Proof.Cutter
