import Xhome.Proof.Cutter.Delivery
import Xhome.Proof.Cutter.Overrun

/-!
# Header freshness

The system is observed with the tags its reader has received and the marks of the
data pieces in the writer's queue. In runs whose steps are `smooth`, each data
block is written with a header piece that carries the last sequence header of
each codec from before its piece, and none of another connection
(`header_fresh`). The tag that ends the header phase may be a sequence header
that no later block carries (`header_stale`).
-/

namespace XH.Proof.Cutter

open XH.Impl.Cutter

/-- The system with what its reader has received, and the marks of the data
pieces in the writer's queue. -/
structure Observed where
  sys : System
  stream : Stream
  marks : List Mark

/-- The oldest message leaves the queue. -/
def Observed.handled (o : Observed) : List Mark :=
  match o.sys.queue with
  | .writePiece false _ _ _ :: _ => o.marks.tail
  | _ => o.marks

/-- The observed system after an event, `s` the system then. -/
def Observed.after (o : Observed) (s : System) (e : Event) : Observed :=
  match e, o.sys.reader.op with
  | .opened true, _ => ⟨s, ⟨[], [], 0⟩, o.marks⟩
  | .data bytes, .receiving pos =>
    if bytes.length < o.sys.reader.readingSize then ⟨s, o.stream, o.marks⟩
    else
      let out := o.stream.step (filled o.sys.reader pos bytes) (parse (filled o.sys.reader pos bytes))
      ⟨s, out.1, o.marks ++ out.2⟩
  | .handle _, _ => ⟨s, o.stream, o.handled⟩
  | _, _ => ⟨s, o.stream, o.marks⟩

def observedStep (env : Env) (o : Observed) (e : Event) : Option Observed :=
  (systemStep env o.sys e).map fun s => o.after s e

/-- The writer accepts all pieces the step posts. -/
def accepted (s : System) (e : Event) : Bool :=
  match e, s.reader.op with
  | .data bytes, .receiving pos =>
    bytes.length < s.reader.readingSize ||
      s.world.w.writingPieceNum + (pieces (parse (filled s.reader pos bytes)).calls).length ≤ maxWritingPieces
  | _, _ => true

/-- The step leaves no sequence header behind. -/
def tidy (s : System) (e : Event) : Bool :=
  match e, s.reader.op with
  | .data bytes, .receiving pos => bytes.length < s.reader.readingSize || clean (filled s.reader pos bytes)
  | _, _ => true

def smooth (s : System) (e : Event) : Bool := accepted s e && tidy s e

/-! ## Posting -/

/-- Each piece posted finds room. -/
def Fits (s : System) (cs : List Call) : Prop := ∀ n < (pieces cs).length, s.world.w.writingPieceNum + n < maxWritingPieces

/-- Nothing is dropped then. -/
theorem foldl_post_all (l : Bool) :
    ∀ (cs : List Call) {s : System}, Fits s cs →
      (cs.foldl (post l) s).queue = s.queue ++ cs.map (msgOf l) ∧
      (cs.foldl (post l) s).world.w.headerPiece = s.world.w.headerPiece
  | [], s, _ => ⟨(List.append_nil _).symm, rfl⟩
  | .asyncWritePiece p seek ts :: cs, s, h => by
    have hlt : s.world.w.writingPieceNum < maxWritingPieces := by simpa using h 0 (Nat.succ_pos _)
    have hp : post l s (.asyncWritePiece p seek ts) = { s with
        world := { s.world with w := { s.world.w with writingPieceNum := s.world.w.writingPieceNum + 1 } }
        queue := s.queue ++ [.writePiece l p seek ts] } := if_pos hlt
    have hf : Fits (post l s (.asyncWritePiece p seek ts)) cs := fun n hn => by
      have := h (n + 1) (Nat.succ_lt_succ hn)
      rw [hp]
      show s.world.w.writingPieceNum + 1 + n < _
      omega
    obtain ⟨h₁, h₂⟩ := foldl_post_all l cs hf
    rw [List.foldl_cons, h₁, h₂, hp]
    exact ⟨List.append_assoc _ _ _, rfl⟩
  | .asyncUpdateHeader head body :: cs, s, h => by
    obtain ⟨h₁, h₂⟩ := foldl_post_all l cs (s := post l s (.asyncUpdateHeader head body)) h
    rw [List.foldl_cons, h₁, h₂]
    exact ⟨List.append_assoc _ _ _, rfl⟩
  | .readerError :: cs, s, h => by
    obtain ⟨h₁, h₂⟩ := foldl_post_all l cs (s := post l s .readerError) h
    rw [List.foldl_cons, h₁, h₂]
    exact ⟨List.append_assoc _ _ _, rfl⟩

theorem pieces_readerError (cs : List Call) : pieces (cs ++ [.readerError]) = pieces cs := by
  rw [pieces_append]
  exact List.append_nil _

/-! ## The invariant -/

theorem Phase.of_eq {r r' : Reader} {st : Stream} (h : Phase r st) (hs : r'.stat = r.stat)
    (hr : r'.readingStat = r.readingStat) (hp : r'.piece = r.piece) (hb : ∀ k, buffered r' k = buffered r k)
    (ht : r'.curFlvTagType = r.curFlvTagType) (ho : r'.isHeaderOver = r.isHeaderOver) : Phase r' st := by
  have hbuf : ∀ {tags}, Buffers r tags → Buffers r' tags := fun h k => by rw [hb k]; exact h k
  have hnone : (∀ k, buffered r k = none) → ∀ k, buffered r' k = none := fun h k => (hb k).trans (h k)
  cases h with
  | fileheader h₁ h₂ h₃ h₄ => exact .fileheader (hs.trans h₁) (hr.trans h₂) (hp.trans h₃) h₄
  | headerHead h₁ h₂ h₃ h₄ => exact .headerHead (hs.trans h₁) (hr.trans h₂) (hnone h₃) (hp ▸ h₄)
  | headerBody h₁ h₂ h₃ h₄ h₅ h₆ h₇ h₈ =>
    exact .headerBody (hs.trans h₁) (hr.trans h₂) (hnone h₃) (ht.trans h₄) (hp.trans h₅) h₆ h₇ fun h => h₈ (ho.symm.trans h)
  | dataHead h₁ h₂ h₃ h₄ h₅ => exact .dataHead (hs.trans h₁) (hr.trans h₂) h₃ (hbuf h₄) (hp ▸ h₅)
  | dataBody h₁ h₂ h₃ h₄ h₅ h₆ h₇ h₈ =>
    exact .dataBody (hs.trans h₁) (hr.trans h₂) h₃ (hbuf h₄) (ht.trans h₅) (hp.trans h₆) h₇ h₈

/-- The header piece that the next data piece will find, if the connection posts
one. -/
def Pending (r : Reader) (st : Stream) (hp : Piece) : Prop := inData r = true → Fresh hp (st.tags.take st.first)

/-- The reader is in step with what it has received, and the queue brings each
data piece its header piece. -/
structure Good (o : Observed) : Prop where
  agree : Agree o.sys
  opening : o.sys.reader.op = .opening → o.sys.reader.piece = [] ∧ o.sys.reader.readingStat = .head
  phase : ∀ {pos}, o.sys.reader.op = .receiving pos → Phase o.sys.reader o.stream
  served : Served (Pending o.sys.reader o.stream) o.sys.queue o.marks o.sys.world.w.headerPiece

theorem pending_idle {r : Reader} {st : Stream} (h : r.op = .idle) (hp : Piece) : Pending r st hp := fun hd => by
  rw [inData_idle h] at hd
  cases hd

section
variable {env : Env} {o : Observed}

theorem Good.tick (h : Good o) : Good ⟨{ o.sys with reader := readerOnClockAlarm o.sys.reader }, o.stream, o.marks⟩ := by
  have ha := h.agree.tick
  unfold readerOnClockAlarm at ha ⊢
  split at ha
  · rename_i hr
    rw [if_pos hr]
    exact ⟨ha, h.opening, fun ho => (h.phase ho).of_eq rfl rfl rfl (fun k => by cases k <;> rfl) rfl rfl, h.served⟩
  · rename_i hr
    rw [if_neg hr]
    have hn : ∀ {pos}, o.sys.reader.op ≠ .receiving pos := fun ho => hr (h.agree.ready ho)
    dsimp only at ha ⊢
    split at ha
    · rename_i h₀
      rw [if_pos h₀]
      unfold doBegin at ha ⊢
      split at ha
      · rename_i hu
        rw [if_pos hu]
        exact ⟨ha, fun _ => ⟨rfl, rfl⟩, (fun e => by cases e), h.served.mono fun _ _ e => by cases e⟩
      · rename_i hu
        rw [if_neg hu]
        exact ⟨ha, (fun e => by cases e), (fun e => by cases e), h.served.mono fun _ _ e => by cases e⟩
    · rename_i h₀
      rw [if_neg h₀]
      exact ⟨ha, h.opening, fun ho => absurd ho hn, h.served⟩

theorem Good.opened (h : Good o) (ho : o.sys.reader.op = .opening) (ok : Bool) :
    Good (o.after { o.sys with reader := onHttpOpen o.sys.reader ok } (.opened ok)) := by
  have ha := h.agree.opened ho ok
  cases ok with
  | false => exact ⟨ha, (fun e => by cases e), (fun e => by cases e), h.served.mono fun _ _ e => by cases e⟩
  | true =>
    obtain ⟨hp, hr⟩ := h.opening ho
    have hs : o.sys.reader.stat = .needHead := h.agree.opening ho
    refine ⟨ha, (fun e => by cases e), fun _ => .fileheader hs hr hp rfl, h.served.mono fun _ _ hd => ?_⟩
    have hd' : inData (onHttpOpen o.sys.reader true) = decide (o.sys.reader.stat = .needFlvData) := rfl
    have hd : inData (onHttpOpen o.sys.reader true) = true := hd
    rw [hd', hs] at hd
    cases hd

/-- A step of the reader whose calls are all accepted. -/
theorem Good.reader {r : Reader} {cs : List Call} (st : Stream) (ms : List Mark) (h : Good o)
    (ha : Agree (applyReader o.sys (r, cs)))
    (hfit : Fits o.sys cs) (hop : r.op ≠ .opening)
    (hp : ∀ {pos}, r.op = .receiving pos → Phase r st)
    (hserved : ∀ hp, Pending o.sys.reader o.stream hp →
      Served (Pending r st) (cs.map (msgOf (leavesNeedHead o.sys.reader r))) ms hp) :
    Good ⟨applyReader o.sys (r, cs), st, o.marks ++ ms⟩ := by
  have hall := foldl_post_all (leavesNeedHead o.sys.reader r) cs (s := { o.sys with reader := r }) hfit
  have hq : (applyReader o.sys (r, cs)).queue = o.sys.queue ++ cs.map (msgOf (leavesNeedHead o.sys.reader r)) := hall.1
  have hh : (applyReader o.sys (r, cs)).world.w.headerPiece = o.sys.world.w.headerPiece := hall.2
  have hr : (applyReader o.sys (r, cs)).reader = r := (foldl_post_frame _ cs { o.sys with reader := r }).1
  refine ⟨ha, fun e => absurd (hr ▸ e) hop, fun e => ?_, ?_⟩
  · rw [hr] at e
    show Phase (applyReader o.sys (r, cs)).reader st
    rw [hr]
    exact hp e
  · show Served (Pending (applyReader o.sys (r, cs)).reader st) (applyReader o.sys (r, cs)).queue (o.marks ++ ms)
      (applyReader o.sys (r, cs)).world.w.headerPiece
    rw [hr, hq, hh]
    exact h.served.append _ _ hserved

/-- The connection ends. -/
theorem Good.lost (h : Good o) (ha : Agree (applyReader o.sys (onError o.sys.reader))) :
    Good ⟨applyReader o.sys (onError o.sys.reader), o.stream, o.marks⟩ := by
  have hg := h.reader o.stream [] ha (fun n hn => by cases hn) (fun e => by cases e)
    (fun e => by cases e) fun hp _ => ⟨rfl, pending_idle rfl hp⟩
  rwa [List.append_nil] at hg

/-- A request is answered in part. -/
theorem Good.partly {pos : Nat} {bytes : List Byte} (h : Good o) (ho : o.sys.reader.op = .receiving pos)
    (ha : Agree (applyReader o.sys (onContent o.sys.reader pos bytes))) (h₀ : 0 < bytes.length)
    (hl : bytes.length < o.sys.reader.readingSize) :
    Good ⟨applyReader o.sys (onContent o.sys.reader pos bytes), o.stream, o.marks⟩ := by
  rw [onContent, if_pos h₀, onData, if_pos hl] at ha ⊢
  have hg := h.reader o.stream [] ha (fun n hn => by cases hn) (fun e => by cases e)
    (fun _ => (h.phase ho).of_eq rfl rfl rfl (fun k => by cases k <;> rfl) rfl rfl) fun hp hpend =>
      ⟨rfl, fun hd => hpend ((inData_receiving ho).trans hd)⟩
  rwa [List.append_nil] at hg

/-- A request is answered: a step of the parser. -/
theorem Good.filled {pos : Nat} {bytes : List Byte} (h : Good o) (ho : o.sys.reader.op = .receiving pos)
    (ha : Agree (applyReader o.sys (finish (parse (filled o.sys.reader pos bytes)))))
    (hc : clean (filled o.sys.reader pos bytes) = true)
    (hfit : Fits o.sys (parse (filled o.sys.reader pos bytes)).calls) :
    Good ⟨applyReader o.sys (finish (parse (filled o.sys.reader pos bytes))),
      (o.stream.step (filled o.sys.reader pos bytes) (parse (filled o.sys.reader pos bytes))).1,
      o.marks ++ (o.stream.step (filled o.sys.reader pos bytes) (parse (filled o.sys.reader pos bytes))).2⟩ := by
  have hph : Phase (Cutter.filled o.sys.reader pos bytes) o.stream :=
    (h.phase ho).of_eq rfl rfl rfl (fun k => by cases k <;> rfl) rfl rfl
  have hin : inData o.sys.reader = decide (o.sys.reader.stat = .needFlvData) := inData_receiving ho
  generalize hr : Cutter.filled o.sys.reader pos bytes = r at *
  have hrs : r.stat = o.sys.reader.stat := by rw [← hr]; rfl
  have hri : r.op = .idle := by rw [← hr]; rfl
  have hi : (parse r).reader.op = .idle := (parse_op r).trans hri
  -- the header piece of the connection is ahead while its data is received
  have hahead : ∀ hp, Pending o.sys.reader o.stream hp → Ahead r o.stream hp := fun hp hpend hd =>
    hpend (by rw [hin, ← hrs]; exact decide_eq_true hd)
  have hleave : ∀ r' : Reader, r'.stat = (parse r).reader.stat →
      leavesNeedHead o.sys.reader r' = leavesNeedHead r (parse r).reader := fun r' e => by
    simp only [leavesNeedHead, e, hrs]
  cases hres : (parse r).resume with
  | false =>
    have hf : finish (parse r) = ((parse r).reader, (parse r).calls) := by rw [finish, hres]; rfl
    obtain ⟨hcalls, hstat⟩ := parse_restart hres
    have hms : (o.stream.step r (parse r)).2 = [] := by
      cases hst : r.stat with
      | needHead => rw [step_needHead hst (hstat.trans hst)]
      | needFlvData => rw [step_needFlvData hst, hcalls]; rfl
    rw [hf] at ha ⊢
    refine h.reader _ _ ha hfit (by rw [hi]; decide) (fun e => by rw [hi] at e; cases e) fun hp _ => ?_
    rw [hms, hcalls]
    exact ⟨rfl, pending_idle hi hp⟩
  | true =>
    have hst := hph.step hc hres
    by_cases hbig : (parse r).reader.readingSize > maxReadingSize
    · have hf : finish (parse r) = (asyncBegin (parse r).reader, (parse r).calls ++ [.readerError]) := by
        rw [finish, if_pos hres, if_pos hbig]
      rw [hf] at ha ⊢
      have hi' : (asyncBegin (parse r).reader).op = .idle := hi
      refine h.reader _ _ ha (by rw [Fits, pieces_readerError]; exact hfit) (by rw [hi']; decide)
        (fun e => by rw [hi'] at e; cases e) fun hp hpend => ?_
      rw [hleave (asyncBegin (parse r).reader) rfl, List.map_append, ← List.append_nil (Stream.step _ _ _).2]
      exact (hst.served hp (hahead hp hpend)).append [.readerError] [] fun hp _ => ⟨rfl, pending_idle hi' hp⟩
    · have hf : finish (parse r) = (receive (parse r).reader, (parse r).calls) := by
        rw [finish, if_pos hres, if_neg hbig]
      rw [hf] at ha ⊢
      refine h.reader _ _ ha hfit (fun e => by cases e)
        (fun _ => hst.phase.of_eq rfl rfl rfl (fun k => by cases k <;> rfl) rfl rfl) fun hp hpend => ?_
      rw [hleave (receive (parse r).reader) rfl]
      refine (hst.served hp (hahead hp hpend)).mono fun hp hah hd => hah ?_
      exact of_decide_eq_true hd

/-- The oldest message is handled. -/
theorem served_handle {Q : Piece → Prop} {m : Msg} {rest : List Msg} {fuel : Nat} {w t : World} {ms : List Mark}
    (h : Served Q (m :: rest) ms w.w.headerPiece) (hm : ∀ {l piece seek ts}, m = .writePiece l piece seek ts → (w.w.stat = .firstPiece ↔ l = true))
    (hh : handle env fuel m w = .ret () t) :
    Served Q rest (match m with | .writePiece false _ _ _ => ms.tail | _ => ms) t.w.headerPiece := by
  cases m with
  | writePiece l piece seek ts =>
    cases l with
    | true =>
      obtain ⟨t', ht', -, hp, -⟩ := handleWritePiece_firstPiece env fuel piece ts ((hm rfl).mpr rfl)
      cases ht'.symm.trans hh
      rw [hp]
      exact h
    | false =>
      have hs : w.w.stat ≠ .firstPiece := fun e => by cases (hm rfl).mp e
      obtain ⟨m, ms', rfl, -, -, hr⟩ := h
      rw [(handleWritePiece_headerPiece hs).ret hh]
      exact hr
  | updateHeader head body => exact h _ (handleUpdateHeader_updated hh)
  | readerError =>
    have hk := (fillLoop_kept env (env.utc w.reads) fuel).ret ((handleReaderError_eq env fuel w).symm.trans hh)
    have hp : (kept t).headerPiece = (kept (afterError w)).headerPiece := congrArg Writer.headerPiece hk
    have hp : t.w.headerPiece = w.w.headerPiece := hp
    rw [hp]
    exact h

/-- What the writer takes for the header is what the reader posted for it. -/
theorem Agree.leaving {s : System} (h : Agree s) {l : Bool} {piece : Piece} {seek ts : Nat} {rest : List Msg}
    (hq : s.queue = .writePiece l piece seek ts :: rest) : s.world.w.stat = .firstPiece ↔ l = true := by
  have hs := h.queue
  rw [hq] at hs
  have hl : l = decide (s.world.w.stat = .firstPiece) := hs.1
  rw [hl, decide_eq_true_iff]

theorem finish_stat (out : Out) : (finish out).1.stat = out.reader.stat := by
  unfold finish
  split
  · split
    · rfl
    · rfl
  · rfl

/-- A smooth step drops no header piece. -/
theorem headerFits_of_smooth {s : System} {e : Event} (h : smooth s e = true) : headerFits s e := by
  intro out hout hl
  obtain ⟨hs, hs'⟩ := of_decide_eq_true hl
  have hne : out.1.stat ≠ s.reader.stat := fun e => by rw [hs, hs'] at e; cases e
  cases e with
  | tick =>
    cases hout
    refine absurd ?_ hne
    unfold readerOnClockAlarm doBegin
    dsimp only
    split_ifs
    · rfl
    · exact hs.symm
    · rfl
    · rfl
  | opened ok =>
    simp only [readerStep] at hout
    split at hout
    · cases hout
      cases ok with
      | false => exact absurd rfl hne
      | true => exact absurd rfl hne
    · cases hout
  | data bytes =>
    simp only [readerStep] at hout
    split at hout
    · rename_i pos ho
      simp only [smooth, accepted, tidy, ho] at h
      split at hout
      · rename_i hb
        cases hout
        by_cases hlt : bytes.length < s.reader.readingSize
        · rw [onContent, if_pos hb.1, onData, if_pos hlt] at hne
          exact absurd rfl hne
        · simp only [hlt, decide_false, Bool.false_or, Bool.and_eq_true, decide_eq_true_eq] at h
          rw [onContent_filled hb.1 hlt, finish_stat] at hne
          cases hres : (parse (filled s.reader pos bytes)).resume with
          | false => exact absurd (parse_restart hres).2 hne
          | true =>
            obtain ⟨-, ⟨e, -⟩ | ⟨-, -, p, hc⟩⟩ := parse_resume hres
            · exact absurd e hne
            · have hp : pieces (parse (filled s.reader pos bytes)).calls = [p] := by rw [hc]; rfl
              rw [hp] at h
              exact Int.lt_of_add_one_le h.1
      · cases hout
    · cases hout
  | lost =>
    simp only [readerStep] at hout
    split at hout
    · cases hout
      exact absurd rfl hne
    · cases hout
  | handle fuel => cases hout
  | alarm fuel => cases hout

theorem Good.step {e : Event} {o' : Observed} (h : Good o) (hs : smooth o.sys e = true)
    (hstep : observedStep env o e = some o') : Good o' := by
  obtain ⟨s, hsys, rfl⟩ := Option.map_eq_some_iff.mp hstep
  have ha : Agree s := h.agree.step (headerFits_of_smooth hs) hsys
  cases e with
  | tick => cases hsys; exact h.tick
  | opened ok =>
    simp only [systemStep, readerStep] at hsys
    split at hsys
    · cases hsys; exact h.opened ‹_› ok
    · cases hsys
  | data bytes =>
    simp only [systemStep, readerStep] at hsys
    split at hsys
    · rename_i pos ho
      simp only [smooth, accepted, tidy, ho] at hs
      simp only [Observed.after, ho]
      split at hsys
      · rename_i hb
        cases hsys
        by_cases hlt : bytes.length < o.sys.reader.readingSize
        · rw [if_pos hlt]
          exact h.partly ho ha hb.1 hlt
        · simp only [hlt, decide_false, Bool.false_or, Bool.and_eq_true, decide_eq_true_eq] at hs
          rw [if_neg hlt]
          rw [onContent_filled hb.1 hlt] at ha ⊢
          exact h.filled ho ha hs.2 fun n hn => by omega
      · cases hsys
    · cases hsys
  | lost =>
    simp only [systemStep, readerStep] at hsys
    split at hsys
    · cases hsys
      exact h.lost ha
    · cases hsys
  | handle fuel =>
    simp only [systemStep] at hsys
    split at hsys
    · rename_i m rest hq
      obtain ⟨t, ht, rfl⟩ := Option.map_eq_some_iff.mp hsys
      obtain ⟨_, ht⟩ := Res.returned_eq_some ht
      have hserved := h.served
      rw [hq] at hserved
      have hd := served_handle hserved (fun e => h.agree.leaving (e ▸ hq)) ht
      refine ⟨ha, h.opening, h.phase, ?_⟩
      show Served _ rest o.handled t.w.headerPiece
      rw [Observed.handled, hq]
      cases m with
      | writePiece l _ _ _ =>
        cases l with
        | true => exact hd
        | false => exact hd
      | updateHeader _ _ => exact hd
      | readerError => exact hd
    · cases hsys
  | alarm fuel =>
    obtain ⟨t, ht, rfl⟩ := Option.map_eq_some_iff.mp hsys
    obtain ⟨_, ht⟩ := Res.returned_eq_some ht
    have hp : (kept t).headerPiece = (kept o.sys.world).headerPiece :=
      congrArg Writer.headerPiece ((onClockAlarm_kept env fuel).ret ht)
    have hp : t.w.headerPiece = o.sys.world.w.headerPiece := hp
    refine ⟨ha, h.opening, h.phase, ?_⟩
    show Served _ o.sys.queue o.marks t.w.headerPiece
    rw [hp]
    exact h.served

end

/-! ## The blocks of a handler -/

/-- The blocks put in place are of kinds with `P`. -/
def Puts (P : BlockKind → Prop) (s t : World) : Prop := ∀ b ∈ t.fs.written, b ∈ s.fs.written ∨ P b.kind

instance (P : BlockKind → Prop) : Std.Refl (Puts P) := ⟨fun _ _ h => .inl h⟩

instance (P : BlockKind → Prop) : IsTrans World (Puts P) where
  trans _ _ _ h h' := fun b hb => (h' b hb).elim (h b) .inr

def IsSpecial (k : BlockKind) : Prop := ∃ specialType, k = .special specialType

section
variable (env : Env) (P : BlockKind → Prop)

theorem puts_of_written {α : Type} {m : Prog World α} (h : Keeps (fun s => s.fs.written) m) : Moves (Puts P) m :=
  .of_keeps h fun e _ hb => .inl (e ▸ hb)

variable {P}

theorem writeBlock_puts (fuel : Nat) {kind : BlockKind} (data : Piece) (len n : Nat) (hk : P kind) :
    Moves (Puts P) (writeBlock env fuel kind data len n) := fun s => by
  have hnew : ∀ t, NewBlocks env kind data (headed env len data s) t → Puts P s t := fun t h b hb =>
    (h.written b hb).imp_right fun hb' => by rw [hb'.1]; exact hk
  refine .bind (.modify (.bind ((writeLoop_newBlocks env kind data _ fuel 0 n _).mono (fun _ t h => ?_) hnew)))
  exact .modify (hnew t h)

end

section
variable (env : Env)

theorem writeOneSpecialPiece_puts (fuel specialType : Nat) :
    Moves (Puts IsSpecial) (writeOneSpecialPiece env fuel specialType) := by
  have hc : Keeps (fun s => s.fs.written) cuePoint := fun s => .of_ret (cuePoint_apply s) rfl
  have ho : Keeps (fun s => s.fs.written) (offair specialType) :=
    .bind .read fun _ => .ite (.bind (.modify fun _ => rfl) fun _ => .pure _) (.pure _)
  exact .ite (.bind (puts_of_written _ hc) fun _ => .bind (puts_of_written _ ho) fun _ => .bind .read fun _ =>
    writeBlock_puts env fuel _ _ _ ⟨_, rfl⟩) (.pure ())

theorem getUTC_puts (P : BlockKind → Prop) : Moves (Puts P) (getUTC env) :=
  puts_of_written P fun s => .of_ret (getUTC_apply env s) rfl

theorem padLoop_puts (specialType : Nat) : ∀ fuel, Moves (Puts IsSpecial) (padLoop env specialType fuel)
  | 0 => .running
  | fuel + 1 => .bind (getUTC_puts env _) fun _ => .bind .read fun _ =>
    .ite (.bind (writeOneSpecialPiece_puts env _ _) fun _ => padLoop_puts specialType fuel) (.pure ())

theorem fillLoop_puts (nowId : Nat) : ∀ fuel, Moves (Puts IsSpecial) (fillLoop env nowId fuel)
  | 0 => .running
  | fuel + 1 => .bind .read fun _ =>
    .ite (.bind (writeOneSpecialPiece_puts env _ _) fun _ => fillLoop_puts nowId fuel) (.pure ())

theorem checkPieceId_puts (fuel : Nat) : Moves (Puts IsSpecial) (checkPieceId env fuel) :=
  .bind (getUTC_puts env _) fun _ => .bind .read fun _ => .ite (.pure _)
    (.ite (.bind (padLoop_puts env _ fuel) fun _ => .pure _) (.pure _))

theorem startPieces_puts (fuel : Nat) : Moves (Puts IsSpecial) (startPieces env fuel) := by
  have hn : ∀ f : World → Writer, Moves (Puts IsSpecial) (Prog.modify fun s => { s with w := f s }) := fun f =>
    .modify fun _ _ h => .inl h
  exact .bind (getUTC_puts env _) fun _ => .bind .read fun _ => .ite (.pure _)
    (.ite (.bind (padLoop_puts env 0 fuel) fun _ => .bind (hn _) fun _ => .pure _)
      (.bind (getUTC_puts env _) fun _ => .bind (hn _) fun _ => .bind (hn _) fun _ => .pure _))

theorem beforeWrite_puts (fuel mediaTs : Nat) : Moves (Puts IsSpecial) (beforeWrite env fuel mediaTs) := by
  refine .bind (puts_of_written _ fun s => .of_ret (baseHandleWritePiece_apply mediaTs s) rfl) fun _ => .bind .read fun s => ?_
  split
  · exact .pure _
  · exact .bind (startPieces_puts env fuel) fun _ => .ite (checkPieceId_puts env fuel) (.pure _)
  · exact checkPieceId_puts env fuel

/-- The alarm fills with special pieces. -/
theorem onClockAlarm_puts (fuel : Nat) : Moves (Puts IsSpecial) (onClockAlarm env fuel) := by
  have hrem : ∀ nowId, Keeps (fun s => s.fs.written) (removeExpired env nowId) := fun nowId =>
    (removeExpired_offRemoval env nowId).comp (·.fs.written)
  have hrep : Keeps (fun s => s.fs.written) countReport :=
    .bind (.modify fun _ => rfl) fun _ => .bind .read fun _ => .ite (.modify fun _ => rfl) (.pure _)
  exact .bind (getUTC_puts env _) fun _ => .bind (.modify fun _ _ h => .inl h) fun _ => .bind (getUTC_puts env _) fun _ =>
    .bind (puts_of_written _ (hrem _)) fun _ =>
      .bind (.bind .read fun _ => .ite (.pure _) (fillLoop_puts env _ fuel)) fun _ => puts_of_written _ hrep

theorem handleReaderError_puts (fuel : Nat) : Moves (Puts IsSpecial) (handleReaderError env fuel) := fun s => by
  unfold WP
  rw [handleReaderError_eq]
  exact fillLoop_puts env _ fuel (afterError s)

/-- Apart from special blocks, a data piece is written in a block with the
header piece. -/
theorem handleWritePiece_puts (fuel : Nat) (piece : Piece) (mediaTs : Nat) {s : World} (h : s.w.stat ≠ .firstPiece) :
    WP (handleWritePiece env fuel piece mediaTs) s
      (fun _ t => Puts (fun k => IsSpecial k ∨ k = .normal s.w.headerPiece piece) s t)
      (Puts (fun k => IsSpecial k ∨ k = .normal s.w.headerPiece piece) s) := by
  have hsp : ∀ {t}, Puts IsSpecial s t → Puts (fun k => IsSpecial k ∨ k = .normal s.w.headerPiece piece) s t := fun ht b hb =>
    (ht b hb).imp_right .inl
  unfold WP
  rw [handleWritePiece_eq h]
  refine WP.seq (((beforeWrite_puts env fuel mediaTs s).and (beforeWrite_headerPiece env fuel mediaTs s)).mono
    (fun _ _ h => h) fun t ht => hsp ht.1) fun go t ht => ?_
  have hp : t.w.headerPiece = s.w.headerPiece := ht.2
  split
  · have hw := writeBlock_puts env (P := fun k => IsSpecial k ∨ k = .normal s.w.headerPiece piece) fuel
      (pieceData t.w piece) (pieceLen t.w piece) 0 (.inr (hp ▸ rfl : BlockKind.normal t.w.headerPiece piece = _)) (cued t)
    unfold WP
    rw [writePiece_eq]
    exact hw.mono (fun _ u hu b hb => (hu b hb).elim (hsp ht.1 b) .inr) fun u hu b hb => (hu b hb).elim (hsp ht.1 b) .inr
  · exact WP.pure (hsp ht.1)

end

/-! ## Runs -/

/-- What the writer's thread may run next. -/
def Observed.next (o : Observed) : WriterEvent → Prop
  | .msg _ m => o.sys.queue.head? = some m
  | .alarm _ => True

/-- A handler leads from `s` to `t`, returned or still running. -/
def Leads (env : Env) (e : WriterEvent) (s t : World) : Prop :=
  writerProg env e s = .ret () t ∨ writerProg env e s = .run t

theorem Observed.after_sys (o : Observed) (s : System) (e : Event) : (o.after s e).sys = s := by
  unfold Observed.after
  split
  · rfl
  · split <;> rfl
  · rfl
  · rfl

/-- The system when the reader starts, with nothing received. -/
def Observed.start (s : System) : Observed := ⟨s, ⟨[], [], 0⟩, []⟩

theorem good_start {w : World} (h : w.w.stat = .firstPiece) (url : List Char) (kf modify : Bool) (scale ts : Nat) :
    Good (.start (startSystem (startReader url kf modify scale ts) w)) :=
  ⟨agree_start h url kf modify scale ts, (fun e => by cases e), (fun e => by cases e), ⟨rfl, fun e => by cases e⟩⟩

/-- The block files stay sound while the calls are observed. -/
theorem sound_observed {env : Env} {fuel : Nat} {u : Uninit} {dir : Path} {guid : Name} {scale life report : Nat}
    {disk : Tree} {mediaTs : Nat} {w : World} (hw : start env fuel u dir guid scale life report disk = .ret mediaTs w)
    {P : Observed → Event → Prop} {r : Reader} {o : Observed}
    (h : Reach (observedStep env) P (.start (startSystem r w)) o) : Sound env scale disk o.sys.world := by
  have h₀ : Sound env scale disk w := (start_sound env fuel u dir guid scale life report disk).ret hw
  refine h.invariant (fun o => Sound env scale disk o.sys.world) h₀ fun o e o' hs _ hstep => ?_
  obtain ⟨s, hsys, rfl⟩ := Option.map_eq_some_iff.mp hstep
  rw [Observed.after_sys]
  exact systemStep_sound hs hsys

/-- A data block is put in place for a data piece. -/
theorem Good.writePiece_of_data (hg : Good o) {env : Env} {e : WriterEvent} (he : o.next e) {t : World}
    (ht : Leads env e o.sys.world t) {b : Written} (hb : b ∈ t.fs.written) (hn : b ∉ o.sys.world.fs.written)
    (hk : ¬ IsSpecial b.kind) :
    ∃ n piece seek ts rest, e = .msg n (.writePiece false piece seek ts) ∧
      o.sys.queue = .writePiece false piece seek ts :: rest ∧ b.kind = .normal o.sys.world.w.headerPiece piece := by
  have hspecial : ¬ Puts IsSpecial o.sys.world t := fun hp => (hp b hb).elim hn hk
  have hsame : t.fs ≠ o.sys.world.fs := fun e => hn (e ▸ hb)
  cases e with
  | alarm n => exact absurd ((onClockAlarm_puts env n o.sys.world).reached ht) hspecial
  | msg n m =>
    obtain ⟨rest, hq⟩ : ∃ rest, o.sys.queue = m :: rest := List.head?_eq_some_iff.mp he
    cases m with
    | readerError => exact absurd ((handleReaderError_puts env n o.sys.world).reached ht) hspecial
    | updateHeader head body =>
      rcases ht with ht | ht
      · obtain ⟨_, _, _, _, -, -, ⟨_, -, rfl⟩ | ⟨-, rfl⟩⟩ := handleUpdateHeader_cases ht
        · exact absurd rfl hsame
        · exact absurd rfl hsame
      · exact absurd ht handleUpdateHeader_not_run
    | writePiece l piece seek ts =>
      have hl : o.sys.world.w.stat = .firstPiece ↔ l = true := hg.agree.leaving hq
      cases l with
      | true =>
        obtain ⟨t', ht', -, -, hfs⟩ := handleWritePiece_firstPiece env n piece ts (hl.mpr rfl)
        rcases ht with ht | ht
        · cases ht'.symm.trans ht
          exact absurd hfs hsame
        · cases ht'.symm.trans ht
      | false =>
        have hs : o.sys.world.w.stat ≠ .firstPiece := fun e => by cases hl.mp e
        exact ⟨n, piece, seek, ts, rest, rfl, hq,
          (((handleWritePiece_puts env n piece ts hs).reached ht b hb).resolve_left hn).resolve_left hk⟩

/-- In a run of smooth steps each data block the writer puts in place is made of
a data piece of the queue, whose tags follow the tags `before` on its connection:
the block begins with a header piece that carries the last sequence header of
each codec among the tags `before`, and no sequence header that is not one of
them. -/
theorem header_fresh {env : Env} {fuel : Nat} {u : Uninit} {dir : Path} {guid : Name} {scale life report : Nat}
    {disk : Tree} {mediaTs : Nat} {w : World}
    (hw : start env fuel u dir guid scale life report disk = .ret mediaTs w) (url : List Char) (kf modify : Bool)
    {o : Observed} (h : Reach (observedStep env) (fun o e => smooth o.sys e = true)
      (.start (startSystem (startReader url kf modify scale mediaTs) w)) o)
    {e : WriterEvent} (he : o.next e) {t : World} (ht : Leads env e o.sys.world t)
    {b : Written} (hb : b ∈ t.fs.written) (hn : b ∉ o.sys.world.fs.written) (hk : ¬ IsSpecial b.kind) :
    ∃ piece seek ts m ms, o.sys.queue.head? = some (.writePiece false piece seek ts) ∧ o.marks = m :: ms ∧
      Holds m.tags piece ∧ ∃ hp header cue, Fresh hp m.before ∧ header.length = 1400 ∧
        b.content = header ++ (hp ++ cue ++ piece).flatten := by
  have hst : w.w.stat = .firstPiece := (init_stat env fuel 0).ret hw
  have hg : Good o := h.invariant Good (good_start hst url kf modify scale mediaTs) fun _ _ _ hg hs hstep => hg.step hs hstep
  obtain ⟨n, piece, seek, ts, rest, rfl, hq, hkind⟩ := hg.writePiece_of_data he ht hb hn hk
  have hserved := hg.served
  rw [hq] at hserved
  obtain ⟨m, ms, hms, hfresh, hholds, -⟩ := hserved
  have hfiled : Filed env scale disk t := by
    have hp := sound_invariant.writerProg (sound_observed hw h) (.msg n (.writePiece false piece seek ts))
    exact ht.elim (fun e => (hp.1 t e).toFiled) fun e => hp.2 t e
  obtain ⟨header, hlen, hc, -⟩ := (hfiled.written b hb).content
  rw [hkind] at hc
  exact ⟨piece, seek, ts, m, ms, he, hms, hholds, _, header.serialize, _, hfresh, hlen, hc⟩

/-- The observed system after the events, and the next handler's outcome. -/
def observe (ok : Observed → Event → Prop) [∀ o e, Decidable (ok o e)] (es : List Event) : Option (Observed × World) :=
  freshStart.andThen fun mediaTs w =>
    (runIf (observedStep (quiet fun _ => 1000)) ok (.start (startSystem (startReader ['u'] false false 1 mediaTs) w)) es).bind
      fun o => o.sys.queue.head?.bind fun m => (handle (quiet fun _ => 1000) 2 m o.sys.world).returned.map fun t => (o, t)

theorem observe_reach {ok : Observed → Event → Prop} [∀ o e, Decidable (ok o e)] {es : List Event} {o : Observed} {t : World}
    (h : observe ok es = some (o, t)) :
    ∃ mediaTs w m, freshStart = .ret mediaTs w ∧ o.next (.msg 2 m) ∧ Leads (quiet fun _ => 1000) (.msg 2 m) o.sys.world t ∧
      Reach (observedStep (quiet fun _ => 1000)) ok (.start (startSystem (startReader ['u'] false false 1 mediaTs) w)) o := by
  obtain ⟨mediaTs, w, hw, h⟩ := Res.andThen_eq_some h
  obtain ⟨o', ho, h⟩ := Option.bind_eq_some_iff.mp h
  obtain ⟨m, hm, h⟩ := Option.bind_eq_some_iff.mp h
  obtain ⟨t', ht, e⟩ := Option.map_eq_some_iff.mp h
  obtain ⟨_, ht⟩ := Res.returned_eq_some ht
  cases e
  exact ⟨mediaTs, w, m, hw, hm, .inl ht, .of_runIf ho⟩

/-- The ids of the blocks there, and the last block of the handler. -/
def lastBlock (r : Observed × World) : List Nat × Option (Nat × BlockKind) :=
  (r.1.sys.world.fs.written.map (·.id), r.2.fs.written.getLast?.map fun b => (b.id, b.kind))

theorem lastBlock_eq {o : Observed} {t : World} {ids : List Nat} {id : Nat} {kind : BlockKind}
    (h : lastBlock (o, t) = (ids, some (id, kind))) :
    ∃ b ∈ t.fs.written, (id ∉ ids → b ∉ o.sys.world.fs.written) ∧ b.kind = kind := by
  obtain ⟨b, hb, e⟩ := Option.map_eq_some_iff.mp (congrArg Prod.snd h)
  have hids : o.sys.world.fs.written.map (·.id) = ids := congrArg Prod.fst h
  have hid : b.id = id := congrArg Prod.fst e
  refine ⟨b, List.mem_of_getLast? hb, fun hn hm => hn ?_, congrArg Prod.snd e⟩
  rw [← hids, ← hid]
  exact List.mem_map_of_mem hm

/-- Two slots behind the heads, the first data piece handled. -/
def twoPieces : List Event := connected ++ [.handle 2] ++ slots 2 2 ++ [.handle 2]

theorem header_fresh_twoPieces :
    ∃ o t b, observe (fun o e => smooth o.sys e = true) twoPieces = some (o, t) ∧ b ∈ t.fs.written ∧
      b ∉ o.sys.world.fs.written ∧ ¬ IsSpecial b.kind ∧
      ∃ piece seek ts m ms, o.sys.queue.head? = some (.writePiece false piece seek ts) ∧ o.marks = m :: ms ∧
        Holds m.tags piece ∧ ∃ hp header cue, Fresh hp m.before ∧ header.length = 1400 ∧
          b.content = header ++ (hp ++ cue ++ piece).flatten := by
  have h : (observe (fun o e => smooth o.sys e = true) twoPieces).map lastBlock =
      some ([1000], some (1001, .normal firstHeader (requests [video 1000]))) := by
    decide +kernel
  obtain ⟨⟨o, t⟩, ho, h⟩ := Option.map_eq_some_iff.mp h
  obtain ⟨b, hb, hid, hkind⟩ := lastBlock_eq h
  obtain ⟨mediaTs, w, m, hw, hm, ht, hr⟩ := observe_reach ho
  have hn : b ∉ o.sys.world.fs.written := hid (by decide)
  have hk : ¬ IsSpecial b.kind := by
    rw [hkind]
    rintro ⟨_, e⟩
    cases e
  exact ⟨o, t, b, ho, hb, hn, hk, header_fresh hw ['u'] false false hr hm ht hb hn hk⟩

/-- A video sequence header with a timestamp ends the header phase and begins the
first data piece; two slots follow. -/
def lateHeader : List Event :=
  [.tick, .tick, .tick, .opened true, .data flvHeader] ++
    (requests [audioHead, videoHead 40]).map .data ++
    [.handle 2] ++ slots 2 2 ++ [.handle 2]

/-- The block of the second data piece is written without it. -/
theorem header_stale :
    ∃ mediaTs w o t b m header hp piece, freshStart = .ret mediaTs w ∧
      Reach (observedStep (quiet fun _ => 1000)) (fun o e => accepted o.sys e = true)
        (.start (startSystem (startReader ['u'] false false 1 mediaTs) w)) o ∧
      o.sys.queue = [.writePiece false piece 17 2000] ∧ o.marks = [m] ∧ newest .avc m.before = some header ∧
      Leads (quiet fun _ => 1000) (.msg 2 (.writePiece false piece 17 2000)) o.sys.world t ∧
      b ∈ t.fs.written ∧ b ∉ o.sys.world.fs.written ∧ b.kind = .normal hp piece ∧ header.2 ∉ hp := by
  have h : (observe (fun o e => accepted o.sys e = true) lateHeader).map lastBlock =
      some ([1000], some (1001, .normal (flvHeader :: requests [audioHead])
        (requests [video 1000]))) := by
    decide +kernel
  have h' : (observe (fun o e => accepted o.sys e = true) lateHeader).map (fun r =>
        (r.1.sys.queue, r.1.marks.map fun m => newest .avc m.before)) =
      some ([.writePiece false (requests [video 1000]) 17 2000],
        [some ((videoHead 40).head, (videoHead 40).body)]) := by
    decide +kernel
  obtain ⟨⟨o, t⟩, ho, h⟩ := Option.map_eq_some_iff.mp h
  obtain ⟨b, hb, hid, hkind⟩ := lastBlock_eq h
  obtain ⟨mediaTs, w, m, hw, hm, ht, hr⟩ := observe_reach ho
  rw [ho, Option.map_some, Option.some.injEq] at h'
  have hq : o.sys.queue = [.writePiece false (requests [video 1000]) 17 2000] := congrArg Prod.fst h'
  have hmarks : o.marks.map (fun m => newest .avc m.before) = [some ((videoHead 40).head, (videoHead 40).body)] := congrArg Prod.snd h'
  obtain ⟨mark, hmark, hnew⟩ := List.map_eq_singleton_iff.mp hmarks
  have hmsg : m = .writePiece false (requests [video 1000]) 17 2000 := by
    have hm : o.sys.queue.head? = some m := hm
    rw [hq] at hm
    exact (Option.some.inj hm).symm
  exact ⟨mediaTs, w, o, t, b, mark, _, _, _, hw, hr, hq, hmark, hnew, hmsg ▸ ht, hb, hid (by decide), hkind, by decide⟩

end XH.Proof.Cutter
