import Xhome.Impl.Cutter.FlvWriter
import Xhome.Impl.Cutter.PplWriter
import Xhome.Proof.Cutter.PieceFile
import Xhome.Proof.Cutter.Rules

/-!
# Rules for the writers of piece files

`PieceRules` lists what is asked of the single actions that both writers share;
the loops over the slots and the handlers of the base class then keep what each
action keeps. `PplRules` and `FlvRules` add the actions of the two writers, and
give the rules for all that their threads run.
-/

namespace XH.Proof.Cutter

open XH.Impl.Cutter

variable {ρ κ : Type}

/-- Only flags, counters, reports and readings of the clock differ; the writer
has not entered `STAT_NORMAL`. -/
structure Inactive (s t : PieceWorld ρ κ) : Prop where
  w : offFlags t.base.w = offFlags s.base.w
  stat : t.base.w.stat = .normal → s.base.w.stat = .normal
  fs : t.base.fs = s.base.fs
  own : t.own = s.own
  placed : t.placed = s.placed
  pushed : t.pushed = s.pushed

/-- The clock has been read. -/
def clockRead (s : PieceWorld ρ κ) : PieceWorld ρ κ := { s with base := ticked s.base }

theorem clockRead_inactive (s : PieceWorld ρ κ) : Inactive s (clockRead s) := ⟨rfl, id, rfl, rfl, rfl, rfl⟩

/-- The first slot is that of the time `now`. -/
def slotBegun (now : Nat) (s : PieceWorld ρ κ) : PieceWorld ρ κ :=
  { s with base := { s.base with
      w := { s.base.w with currentPieceId := now / s.base.w.pieceScale * s.base.w.pieceScale } } }

theorem onBase_get {α : Type} (f : World → Prog World α) (s : PieceWorld ρ κ) :
    onBase (Prog.get >>= f) s = onBase (f s.base) s := rfl

theorem onBase_getUTC (env : PieceEnv) (s : PieceWorld ρ κ) :
    onBase (getUTC env.toEnv) s = .ret (env.utc s.base.reads) (clockRead s) := rfl

/-- What the actions that the writers share keep: `I` between the actions, `J`
while a loop is running. -/
structure PieceRules (env : PieceEnv) (special : Nat → Nat → Prog (PieceWorld ρ κ) Unit)
    (I J : PieceWorld ρ κ → Prop) : Prop where
  running : ∀ s, I s → J s
  inactive : ∀ {s t}, I s → Inactive s t → I t
  stat : ∀ n ty s, WP (special n ty) s (fun _ t => t.base.w.stat = s.base.w.stat) fun _ => True
  special : ∀ n {ty} s, ty ≤ 1 → I s → WP (special n ty) s (fun _ t => I t) J
  begin : ∀ now s, s.base.w.currentPieceId = 0 → I s → I (slotBegun now s)
  expire : ∀ old s, I s → WP (onBase (dropExpired env.toEnv old s.base.fs.pieceFileQueue)) s (fun _ t => I t) J

namespace PieceRules

variable {env : PieceEnv} {special : Nat → Nat → Prog (PieceWorld ρ κ) Unit} {I J : PieceWorld ρ κ → Prop}

theorem padSlots (hI : PieceRules env special I J) {ty : Nat} (hty : ty ≤ 1) :
    ∀ (fuel : Nat) {s : PieceWorld ρ κ}, I s →
      WP (padSlots env special ty fuel) s (fun _ t => I t ∧ t.base.w.stat = s.base.w.stat) J
  | 0, s, hs => .running (hI.running s hs)
  | fuel + 1, s, hs => by
    refine .bind (.of_ret (onBase_getUTC env s) (.bind (.get ?_)))
    have hi : I (clockRead s) := hI.inactive hs (clockRead_inactive s)
    split
    · have hw := (hI.special (fuel + 1) _ hty hi).and (hI.stat (fuel + 1) ty (clockRead s))
      refine .seq (hw.mono (fun _ _ h => h) fun _ h => h.1) fun _ t ht => ?_
      exact (hI.padSlots hty fuel ht.1).mono (fun _ _ h => ⟨h.1, h.2.trans ht.2⟩) fun _ h => h
    · exact .pure ⟨hi, rfl⟩

theorem fillSlots (hI : PieceRules env special I J) (nowId : Nat) :
    ∀ (fuel : Nat) {s : PieceWorld ρ κ}, I s → WP (fillSlots special nowId fuel) s (fun _ t => I t) J
  | 0, s, hs => .running (hI.running s hs)
  | fuel + 1, s, hs => by
    refine .bind (.get ?_)
    split
    · exact .seq (hI.special (fuel + 1) s (Nat.zero_le 1) hs) fun _ t ht => hI.fillSlots nowId fuel ht
    · exact .pure hs

theorem startSlots (hI : PieceRules env special I J) (fuel : Nat) {s : PieceWorld ρ κ} (hs : I s) :
    WP (startSlots env special fuel) s (fun go t => I t ∧ (go = false → t = clockRead s)) J := by
  have hi : I (clockRead s) := hI.inactive hs (clockRead_inactive s)
  refine .bind (.of_ret (onBase_getUTC env s) (.bind (.get ?_)))
  split
  · exact .pure ⟨hi, fun _ => rfl⟩
  · split
    · exact .seq (hI.padSlots (Nat.zero_le 1) fuel hi) fun _ t ht => .pure ⟨ht.1, nofun⟩
    · rename_i h
      refine .bind (.of_ret (onBase_getUTC env _) (.bind (.modify (.pure ⟨?_, nofun⟩))))
      exact hI.begin _ _ (Nat.eq_zero_of_not_pos h) (hI.inactive hi (clockRead_inactive _))

theorem checkSlot (hI : PieceRules env special I J) (fuel : Nat) {s : PieceWorld ρ κ} (hs : I s) :
    WP (checkSlot env special fuel) s
      (fun go t => I t ∧ t.base.w.stat = s.base.w.stat ∧ (go = false → t = clockRead s ∧
        s.base.w.currentPieceId > u32 (env.utc s.base.reads + s.base.w.pieceScale))) J := by
  have hi : I (clockRead s) := hI.inactive hs (clockRead_inactive s)
  refine .bind (.of_ret (onBase_getUTC env s) (.bind (.get ?_)))
  split
  · exact .pure ⟨hi, rfl, fun _ => ⟨rfl, ‹_›⟩⟩
  · split
    · exact .seq (hI.padSlots (Nat.le_refl 1) fuel hi) fun _ t ht => .pure ⟨ht.1, ht.2, nofun⟩
    · exact .pure ⟨hi, rfl, nofun⟩

theorem pieceReaderError (hI : PieceRules env special I J) (fuel : Nat) {s : PieceWorld ρ κ} (hs : I s) :
    WP (pieceReaderError env special fuel) s (fun _ t => I t) J := by
  refine .bind (onBase_wp (.modify (.bind (onBase_wp (.modify (.bind (.of_ret (onBase_getUTC env _) ?_)))))))
  exact hI.fillSlots _ fuel (hI.inactive hs ⟨rfl, nofun, rfl, rfl, rfl, rfl⟩)

theorem countReport_wp (hI : PieceRules env special I J) {s : PieceWorld ρ κ} (hs : I s) :
    WP (onBase countReport) s (fun _ t => I t) J := by
  have hk : Keeps (fun b => b.w.stat) countReport :=
    .bind (.modify fun _ => rfl) fun _ => .bind .read fun _ => .ite (.modify fun _ => rfl) (.pure _)
  have hw := (countReport_inert (J := fun _ => False) s.base).and (hk s.base)
  refine onBase_wp (hw.mono (fun _ b hb => ?_) fun _ h => h.1.elim)
  exact hI.inactive hs ⟨hb.1.w, fun e => hb.2.symm.trans e, hb.1.fs, rfl, rfl, rfl⟩

theorem pieceClockAlarm (hI : PieceRules env special I J) (fuel : Nat) {s : PieceWorld ρ κ} (hs : I s) :
    WP (pieceClockAlarm env special fuel) s (fun _ t => I t) J := by
  have hi : I (clockRead s) := hI.inactive hs (clockRead_inactive s)
  refine .bind (.of_ret (onBase_getUTC env s) (.seq (P := fun _ t => I t) ?_ fun _ t ht => .bind (.get ?_)))
  · unfold WP
    rw [removeExpired, onBase_get]
    exact hI.expire _ _ hi
  · split
    · exact hI.countReport_wp ht
    · exact .seq (hI.fillSlots _ fuel ht) fun _ u hu => hI.countReport_wp hu

/-- `CPieceWriter::HandleWritePiece`. -/
theorem base (hI : PieceRules env special I J) (mediaTs : Nat) {s : PieceWorld ρ κ} (hs : I s) :
    I { s with base := afterBase mediaTs s.base } := hI.inactive hs ⟨rfl, id, rfl, rfl, rfl, rfl⟩

end PieceRules

theorem onBase_baseHandleWritePiece (mediaTs : Nat) (s : PieceWorld ρ κ) :
    onBase (baseHandleWritePiece mediaTs) s = .ret () { s with base := afterBase mediaTs s.base } :=
  onBase_ret (baseHandleWritePiece_apply mediaTs s.base)

/-- A piece that comes too early is dropped. -/
theorem checkSlot_early (env : PieceEnv) (special : Nat → Nat → Prog (PieceWorld ρ κ) Unit) (fuel : Nat)
    {s : PieceWorld ρ κ} (h : s.base.w.currentPieceId > u32 (env.utc s.base.reads + s.base.w.pieceScale)) :
    checkSlot env special fuel s = .ret false (clockRead s) := by
  have h' : (clockRead s).base.w.currentPieceId > u32 (env.utc s.base.reads + (clockRead s).base.w.pieceScale) := h
  rw [checkSlot, Prog.bind_ret (onBase_getUTC env s), Prog.bind_ret (Prog.get_apply _), if_pos h']
  rfl

/-- The first piece begins the slots. -/
theorem startSlots_zero (env : PieceEnv) (special : Nat → Nat → Prog (PieceWorld ρ κ) Unit) (fuel : Nat)
    {s : PieceWorld ρ κ} (h : s.base.w.currentPieceId = 0) :
    startSlots env special fuel s =
      .ret true (slotBegun (env.utc (s.base.reads + 1)) (clockRead (clockRead s))) := by
  have h₁ : ¬ (clockRead s).base.w.currentPieceId > env.utc s.base.reads := by
    show ¬ s.base.w.currentPieceId > _
    omega
  have h₂ : ¬ (clockRead s).base.w.currentPieceId > 0 := by
    show ¬ s.base.w.currentPieceId > 0
    omega
  rw [startSlots, Prog.bind_ret (onBase_getUTC env s), Prog.bind_ret (Prog.get_apply _), if_neg h₁]
  dsimp only
  rw [if_neg h₂]
  rfl

/-! ## The writer of PPL files -/

/-- `STAT_FIRST_PIECE` has stored the header piece. -/
def pplHeaderStored (piece : Piece) (s : PplWorld) : PplWorld :=
  { s with base := { s.base with w := { s.base.w with headerPiece := piece, stat := .secondPiece } } }

structure PplRules (env : PieceEnv) (I J : PplWorld → Prop) : Prop
    extends PieceRules env (pplWriteOneSpecialPiece env) I J where
  header : ∀ piece s, I s → I (pplHeaderStored piece s)
  head : ∀ n piece seek s, I s → WP (writeHeadPiece env n piece seek) s (fun _ t => I t) J
  data : ∀ n piece seek s, I s → s.base.w.stat = .normal → WP (writeDataPiece env n piece seek) s (fun _ t => I t) J
  heads : ∀ old s, I s → WP (dropHeads env.toEnv old s.own.headPieceFileQueue) s (fun _ t => I t) J

namespace PplRules

variable {env : PieceEnv} {I J : PplWorld → Prop}

theorem handleWritePiece (hI : PplRules env I J) (fuel : Nat) (piece : Piece) (seek mediaTs : Nat) {s : PplWorld}
    (hs : I s) : WP (pplHandleWritePiece env fuel piece seek mediaTs) s (fun _ t => I t) J := by
  have hb := hI.base mediaTs hs
  refine .bind (.of_ret (onBase_baseHandleWritePiece mediaTs s) (.bind (.get ?_)))
  split
  · exact onBase_wp (.modify (hI.header piece _ hb))
  · refine .seq (hI.startSlots fuel hb) fun go t ht => ?_
    split
    · exact hI.head fuel piece seek t ht.1
    · exact .pure ht.1
  · rename_i hn
    refine .seq (hI.checkSlot fuel hb) fun go t ht => ?_
    split
    · exact hI.data fuel piece seek t ht.1 (ht.2.1.trans hn)
    · exact .pure ht.1

theorem removeHeads (hI : PplRules env I J) (nowId : Nat) {s : PplWorld} (hs : I s) :
    WP (removeHeads env.toEnv nowId) s (fun _ t => I t) J := .bind (.get (hI.heads _ s hs))

theorem onClockAlarm (hI : PplRules env I J) (fuel : Nat) {s : PplWorld} (hs : I s) :
    WP (pplOnClockAlarm env fuel) s (fun _ t => I t) J := by
  refine .seq (hI.pieceClockAlarm fuel hs) fun _ t ht => .bind (.of_ret (onBase_getUTC env t) ?_)
  exact hI.removeHeads _ (hI.inactive ht (clockRead_inactive t))

/-- Every handler keeps what the actions keep. -/
theorem prog (hI : PplRules env I J) (e : PieceEvent) (s : PplWorld) (hs : I s) :
    WP (pplProg env e) s (fun _ t => I t) J := by
  cases e with
  | writePiece fuel piece seek mediaTs => exact hI.handleWritePiece fuel piece seek mediaTs hs
  | readerError fuel => exact hI.pieceReaderError fuel hs
  | alarm fuel => exact hI.onClockAlarm fuel hs

theorem addAbsent (hI : PplRules env I J) (nowId : Nat) :
    ∀ (fuel : Nat) {s : PplWorld}, I s → WP (addAbsent env nowId fuel) s (fun _ t => I t) J
  | 0, s, hs => .running (hI.running s hs)
  | fuel + 1, s, hs => by
    refine .bind (.get ?_)
    split
    · exact .seq (hI.special (fuel + 1) s (Nat.zero_le 1) hs) fun _ t ht => hI.addAbsent nowId fuel ht
    · exact .pure hs

end PplRules

/-- `resumeSlots` removes pieces and sets the id. -/
theorem resumeSlots_wp (env : Env) (nowId : Nat) (s : World) :
    WP (resumeSlots env nowId) s
      (fun _ t => ∃ b id, Calm s b ∧ t = { b with w := { b.w with currentPieceId := id } }) (Calm s) := by
  refine .bind (.get (.bind ((dropExpired_moves (calm_removal env) _ _ s).mono (fun _ b hb => .modify ?_) fun _ h => h)))
  dsimp only
  split
  · exact ⟨b, _, hb, rfl⟩
  · exact ⟨b, b.w.currentPieceId, hb, rfl⟩

/-- Head pieces and their copies are removed, and their entries. -/
theorem dropHeads_keeps {K : PplWorld → Prop} (hcalm : ∀ {s : PplWorld} {b : World}, K s → Calm s.base b → K { s with base := b })
    (hqueue : ∀ q (s : PplWorld), K s → K { s with own := { s.own with headPieceFileQueue := q } }) (env : Env)
    (old : PieceFileInfo → Bool) :
    ∀ (l : List PieceFileInfo) {s : PplWorld}, K s → WP (dropHeads env old l) s (fun _ t => K t) K
  | [], _, h => .pure h
  | f :: rest, s, h => by
    have hremove : ∀ (p : Path) {t : PplWorld}, K t → WP (onBase (tryRemove env p)) t (fun _ u => K u) K :=
      fun p t ht => onBase_wp ((tryRemove_calm env p t.base).mono (fun _ b hb => hcalm ht hb) fun _ hb => hcalm ht hb)
    have hrest : ∀ {t : PplWorld}, K t → WP (do
          Prog.modify fun s => { s with own := { s.own with headPieceFileQueue := rest } }
          dropHeads env old rest : Prog PplWorld Unit) t (fun _ u => K u) K :=
      fun ht => .bind (.modify (dropHeads_keeps hcalm hqueue env old rest (hqueue rest _ ht)))
    rw [dropHeads]
    split
    · refine .seq (hremove f.path h) fun ok t ht => ?_
      cases ok with
      | true => exact .seq (hremove _ ht) fun _ u hu => hrest hu
      | false => exact hrest ht
    · exact .pure h

/-! ## `Run` of the writer of PPL files -/

theorem pplScan_calm (env : Env) (dir : Path) : Moves Calm (pplScan env dir) :=
  .bind .read fun _ => .bind (removeTmps_moves (calm_removal env) dir _) fun _ => queue_calm _

/-- The state in which `Run` looks at the directory. -/
def pplReady (env : PieceEnv) (s : PplWorld) : PplWorld :=
  { s with base := { ticked s.base with
      w := { s.base.w with
        offairTag := some (env.onairTag.getD offairTagData), checkpointTag := some checkPointTagData } } }

theorem pplRun_eq (env : PieceEnv) (fuel : Nat) (s : PplWorld) :
    pplRun env fuel s = if s.base.fs.filePath ∈ s.base.fs.disk.dirs then
      (do
        onBase (pplScan env.toEnv s.base.fs.filePath)
        onBase (resumeSlots env.toEnv (env.utc s.base.reads))
        loadHeads env (env.utc s.base.reads) s.base.fs.filePath
        addAbsent env (env.utc s.base.reads) fuel : Prog PplWorld Unit) (pplReady env s)
    else .ub := by
  have h : pplRun env fuel s = (if s.base.fs.filePath ∈ s.base.fs.disk.dirs then do
        onBase (pplScan env.toEnv s.base.fs.filePath)
        onBase (resumeSlots env.toEnv (env.utc s.base.reads))
        loadHeads env (env.utc s.base.reads) s.base.fs.filePath
        addAbsent env (env.utc s.base.reads) fuel
      else Prog.undefined : Prog PplWorld Unit) (pplReady env s) := rfl
  rw [h]
  split
  · rfl
  · rfl

/-- The rules for the start in the directory `dir`: what is done to the files and
to the fields. -/
structure PplRunRules (env : PieceEnv) (dir : Path) (I J : PplWorld → Prop) : Prop extends PplRules env I J where
  calm : ∀ {s b}, I s → Calm s.base b → I { s with base := b }
  resumed : ∀ id s, I s → I { s with base := { s.base with w := { s.base.w with currentPieceId := id } } }
  headQueue : ∀ q s, I s → I { s with own := { s.own with headPieceFileQueue := q } }
  headerId : ∀ id s, I s → I { s with own := { s.own with headerPieceId := id } }
  copies : ∀ s, I s → WP (copyHeads env dir (s.base.fs.disk.filesIn dir)) s (fun _ t => I t) J

namespace PplRunRules

variable {env : PieceEnv} {dir : Path} {I J : PplWorld → Prop}

theorem loadHeads (hI : PplRunRules env dir I J) (nowId : Nat) {s : PplWorld} (hs : I s) :
    WP (loadHeads env nowId dir) s (fun _ t => I t) J := by
  refine .bind (.get (.seq (hI.copies s hs) fun _ t ht => .bind (.modify ?_)))
  refine .seq (hI.removeHeads nowId (hI.headQueue _ t ht)) fun _ u hu => .modify ?_
  dsimp only
  split
  · exact hI.headerId _ u hu
  · exact hu

theorem run (hI : PplRunRules env dir I J) (fuel : Nat) {s : PplWorld} (hp : s.base.fs.filePath = dir)
    (hd : dir ∈ s.base.fs.disk.dirs) (hs : I (pplReady env s)) : WP (pplRun env fuel) s (fun _ t => I t) J := by
  unfold WP
  rw [pplRun_eq, hp, if_pos hd]
  refine WP.bind (onBase_wp ((pplScan_calm env.toEnv _ _).mono (fun _ b hb => ?_) fun _ hb => hI.running _ (hI.calm hs hb)))
  have ht := hI.calm hs hb
  refine .bind (onBase_wp ((resumeSlots_wp env.toEnv _ b).mono (fun _ c hc => ?_) fun _ hc => hI.running _ (hI.calm ht hc)))
  obtain ⟨c, id, hc, rfl⟩ := hc
  exact .seq (hI.loadHeads _ (hI.resumed id _ (hI.calm ht hc))) fun _ t ht => hI.addAbsent _ fuel ht

/-- What the start and the handlers keep holds in all states of a run. -/
theorem visited (hI : PplRunRules env dir I J) {fuel : Nat} {s t : PplWorld} (hp : s.base.fs.filePath = dir)
    (hs : dir ∈ s.base.fs.disk.dirs → I (pplReady env s)) (h : Visited (pplRun env fuel s) (pplProg env) t) : J t := by
  by_cases hd : dir ∈ s.base.fs.disk.dirs
  · have hrun := hI.run fuel hp hd (hs hd)
    exact h.invariant (fun _ _ e => hrun.ret e) (fun _ e => hrun.run e) hI.running hI.prog
  · have hub : pplRun env fuel s = .ub := by rw [pplRun_eq, hp, if_neg hd]
    rw [hub] at h
    exact h.invariant (I := I) (fun _ _ e => by cases e) (fun _ e => by cases e) hI.running hI.prog

end PplRunRules

/-! ## The writer of FLV files -/

/-- `STAT_FIRST_PIECE` has stored the header piece. -/
def flvHeaderStored (piece : Piece) (s : FlvWorld) : FlvWorld := { s with base := headerStored piece s.base }

/-- `STAT_SECOND_PIECE` is over. -/
def normalEntered (s : FlvWorld) : FlvWorld := { s with base := { s.base with w := { s.base.w with stat := .normal } } }

structure FlvRules (env : PieceEnv) (I J : FlvWorld → Prop) : Prop
    extends PieceRules env (flvWriteOneSpecialPiece env) I J where
  header : ∀ piece s, I s → I (flvHeaderStored piece s)
  enter : ∀ s, I s → I (normalEntered s)
  piece : ∀ n piece s, I s → WP (flvWritePiece env n piece) s (fun _ t => I t) J

namespace FlvRules

variable {env : PieceEnv} {I J : FlvWorld → Prop}

theorem handleNormal (hI : FlvRules env I J) (fuel : Nat) (piece : Piece) {s : FlvWorld} (hs : I s) :
    WP (flvHandleNormal env fuel piece) s (fun _ t => I t) J := by
  refine .seq (hI.checkSlot fuel hs) fun go t ht => ?_
  split
  · exact hI.piece fuel piece t ht.1
  · exact .pure ht.1

theorem handleWritePiece (hI : FlvRules env I J) (fuel : Nat) (piece : Piece) (mediaTs : Nat) {s : FlvWorld} (hs : I s) :
    WP (flvHandleWritePiece env fuel piece mediaTs) s (fun _ t => I t) J := by
  have hb := hI.base mediaTs hs
  refine .bind (.of_ret (onBase_baseHandleWritePiece mediaTs s) (.bind (.get ?_)))
  split
  · exact onBase_wp (.modify (hI.header piece _ hb))
  · refine .seq (hI.startSlots fuel hb) fun go t ht => ?_
    split
    · exact .bind (onBase_wp (.modify (hI.handleNormal fuel piece (hI.enter t ht.1))))
    · exact .pure ht.1
  · exact hI.handleNormal fuel piece hb

/-- Every handler keeps what the actions keep. -/
theorem prog (hI : FlvRules env I J) (e : PieceEvent) (s : FlvWorld) (hs : I s) :
    WP (flvProg env e) s (fun _ t => I t) J := by
  cases e with
  | writePiece fuel piece seek mediaTs => exact hI.handleWritePiece fuel piece mediaTs hs
  | readerError fuel => exact hI.pieceReaderError fuel hs
  | alarm fuel => exact hI.pieceClockAlarm fuel hs

end FlvRules

end XH.Proof.Cutter
