import Xhome.Proof.Cutter.Sync

/-!
# The operations of the reader

A session is the reader with all operations of its HTTP clients that have been
started and have not completed, however many: `do_begin` drops a client, but an
operation that it closes still completes, with an error. In every state of a
session one operation is outstanding, or none is and the countdown to the next
`do_begin` runs (`one_operation`). So the reader's `op` is all that is
outstanding.
-/

namespace XH.Proof.Cutter

open XH.Impl.Cutter

structure Session where
  reader : Reader
  outstanding : List HttpOp

inductive Completion where
  | opened (ok : Bool)
  | data (bytes : List Byte)
  | lost

def Completion.event : Completion → Event
  | opened ok => .opened ok
  | data bytes => .data bytes
  | lost => .lost

/-- A clock alarm, or a completion of any of the outstanding operations. -/
inductive Happening where
  | alarm
  | completes (op : HttpOp) (c : Completion)

/-- The next clock alarm calls `do_begin`. -/
def begins (r : Reader) : Prop := r.isReaderReady = false ∧ r.startCutDownTime - 1 = 0

instance (r : Reader) : Decidable (begins r) := inferInstanceAs (Decidable (_ ∧ _))

/-- What a handler has started, nothing of its own being outstanding before. -/
def startedOps (op : HttpOp) : List HttpOp := if op = .idle then [] else [op]

def sessionStep (s : Session) : Happening → Option Session
  | .alarm => some ⟨readerOnClockAlarm s.reader,
      s.outstanding ++ if begins s.reader then startedOps (readerOnClockAlarm s.reader).op else []⟩
  | .completes op c =>
    if op ∈ s.outstanding then
      (readerStep { s.reader with op } c.event).map fun out => ⟨out.1, s.outstanding.erase op ++ startedOps out.1.op⟩
    else none

/-- The object as `Start` leaves it. -/
def Session.start (r : Reader) : Session := ⟨asyncBegin { r with op := .idle }, []⟩

/-! ## The steps of the reader -/

/-- The countdown is armed. -/
structure Armed (r : Reader) : Prop where
  ready : r.isReaderReady = false
  pos : 1 ≤ r.startCutDownTime
  le : r.startCutDownTime ≤ 3

theorem asyncBegin_armed (r : Reader) : Armed (asyncBegin r) := by
  have hc : (asyncBegin r).startCutDownTime = 1 ∨ (asyncBegin r).startCutDownTime = 3 := by
    unfold asyncBegin
    dsimp only
    split
    · exact .inl rfl
    · exact .inr rfl
  refine ⟨rfl, ?_, ?_⟩
  · omega
  · omega

/-- The reader at its turn: during an open the countdown is past zero, and
without an operation it is armed. -/
structure Turn (r : Reader) : Prop where
  idle : r.op = .idle → Armed r
  opening : r.op = .opening → r.isReaderReady = false ∧ r.startCutDownTime ≤ 0
  receiving : ∀ {pos}, r.op = .receiving pos → r.isReaderReady = true

section
variable {r : Reader}

theorem turn_of_idle (ho : r.op = .idle) (h : Armed r) : Turn r where
  idle _ := h
  opening e := by cases ho.symm.trans e
  receiving e := by cases ho.symm.trans e

theorem turn_of_receiving {pos : Nat} (ho : r.op = .receiving pos) (h : r.isReaderReady = true) : Turn r where
  idle e := by cases ho.symm.trans e
  opening e := by cases ho.symm.trans e
  receiving _ := h

/-- `do_begin` is called without an operation only: `Start` and a restart arm
the countdown, and it passes zero once. -/
theorem Turn.op_of_begins (h : Turn r) (hb : begins r) : r.op = .idle := by
  obtain ⟨h₁, h₂⟩ := hb
  cases ho : r.op with
  | idle => rfl
  | opening =>
    have := (h.opening ho).2
    omega
  | receiving pos =>
    rw [h.receiving ho] at h₁
    cases h₁

theorem onClockAlarm_begins (hu : r.url ≠ []) (hb : begins r) :
    (readerOnClockAlarm r).op = .opening ∧ Turn (readerOnClockAlarm r) := by
  obtain ⟨h₁, h₂⟩ := hb
  have e : readerOnClockAlarm r = { r with
      startCutDownTime := r.startCutDownTime - 1, piece := [], stat := .needHead, readingStat := .head, op := .opening } := by
    unfold readerOnClockAlarm doBegin
    simp only [h₁, h₂]
    simp [hu]
  rw [e]
  refine ⟨rfl, (fun e => by cases e), fun _ => ⟨h₁, ?_⟩, fun e => by cases e⟩
  show r.startCutDownTime - 1 ≤ 0
  omega

theorem onClockAlarm_waits (hb : ¬ begins r) : (readerOnClockAlarm r).op = r.op := by
  unfold readerOnClockAlarm
  split
  · rfl
  · rename_i h
    have hc : r.startCutDownTime - 1 ≠ 0 := fun hc => hb ⟨Bool.eq_false_iff.mpr h, hc⟩
    dsimp only
    rw [if_neg hc]

theorem Turn.waits (h : Turn r) (hb : ¬ begins r) : Turn (readerOnClockAlarm r) := by
  unfold readerOnClockAlarm
  split
  · exact ⟨fun ho => ⟨(h.idle ho).ready, (h.idle ho).pos, (h.idle ho).le⟩, h.opening, h.receiving⟩
  · rename_i hr
    have hc : r.startCutDownTime - 1 ≠ 0 := fun hc => hb ⟨Bool.eq_false_iff.mpr hr, hc⟩
    dsimp only
    rw [if_neg hc]
    refine ⟨fun ho => ?_, fun ho => ?_, fun ho => absurd (h.receiving ho) hr⟩
    · obtain ⟨h₁, h₂, h₃⟩ := h.idle ho
      refine ⟨h₁, ?_, ?_⟩
      · show 1 ≤ r.startCutDownTime - 1
        omega
      · show r.startCutDownTime - 1 ≤ 3
        omega
    · obtain ⟨h₁, h₂⟩ := h.opening ho
      refine ⟨h₁, ?_⟩
      show r.startCutDownTime - 1 ≤ 0
      omega

theorem onHttpOpen_turn (r : Reader) (ok : Bool) : Turn (onHttpOpen r ok) := by
  unfold onHttpOpen
  split
  · exact turn_of_receiving rfl rfl
  · exact turn_of_idle rfl (asyncBegin_armed _)

theorem onError_turn (r : Reader) : Turn (onError r).1 := turn_of_idle rfl (asyncBegin_armed _)

/-- After a step of the parser the next bytes are asked for, or a restart is armed. -/
theorem finish_parse_turn (ho : r.op = .idle) (hr : r.isReaderReady = true) : Turn (finish (parse r)).1 := by
  have hi : (parse r).reader.op = .idle := (parse_op r).trans ho
  unfold finish
  split
  · rename_i hres
    split
    · exact turn_of_idle hi (asyncBegin_armed _)
    · exact turn_of_receiving rfl ((parse_isReaderReady hres).trans hr)
  · obtain ⟨q, e⟩ := parse_stops (Bool.eq_false_iff.mpr ‹_›)
    apply turn_of_idle hi
    rw [e]
    exact asyncBegin_armed q

theorem onContent_turn (h : Turn r) {pos : Nat} (ho : r.op = .receiving pos) {data : List Byte} (h₀ : 0 < data.length) :
    Turn (onContent r pos data).1 := by
  by_cases hl : data.length < r.readingSize
  · rw [onContent, if_pos h₀, onData, if_pos hl]
    exact turn_of_receiving rfl (h.receiving ho)
  · rw [onContent_filled h₀ hl]
    exact finish_parse_turn rfl (h.receiving ho)

theorem finish_config (o : Out) : config (finish o).1 = config o.reader := by
  unfold finish
  split
  · split <;> rfl
  · rfl

theorem onContent_config (r : Reader) (pos : Nat) (data : List Byte) : config (onContent r pos data).1 = config r := by
  unfold onContent onData
  dsimp only
  split
  · split
    · rfl
    · exact (finish_config _).trans (parse_config _)
  · rfl

/-- A completion leaves the reader at its turn. -/
theorem Turn.completes (h : Turn r) {c : Completion} {out : Reader × List Call} (hs : readerStep r c.event = some out) :
    Turn out.1 ∧ config out.1 = config r := by
  cases c with
  | opened ok =>
    simp only [Completion.event, readerStep] at hs
    split at hs
    · cases hs
      refine ⟨onHttpOpen_turn r ok, ?_⟩
      unfold onHttpOpen
      split <;> rfl
    · cases hs
  | data bytes =>
    simp only [Completion.event, readerStep] at hs
    split at hs
    · split at hs
      · rename_i pos ho hb
        cases hs
        exact ⟨onContent_turn h ho hb.1, onContent_config r pos bytes⟩
      · cases hs
    · cases hs
  | lost =>
    simp only [Completion.event, readerStep] at hs
    split at hs
    · cases hs
      exact ⟨onError_turn r, rfl⟩
    · cases hs

end

/-! ## Sessions -/

/-- The reader is at its turn, and its operation is all that is outstanding. -/
structure Session.Tidy (s : Session) : Prop where
  url : s.reader.url ≠ []
  turn : Turn s.reader
  outstanding : s.outstanding = startedOps s.reader.op

section
variable {s t : Session}

theorem Session.Tidy.alarm (h : s.Tidy) (hs : sessionStep s .alarm = some t) : t.Tidy := by
  obtain ⟨r, l⟩ := s
  cases hs
  obtain ⟨hu, ht, hl⟩ := h
  dsimp only at hu ht hl
  have hu' : (readerOnClockAlarm r).url ≠ [] := by
    unfold readerOnClockAlarm doBegin
    dsimp only
    split_ifs <;> exact hu
  by_cases hb : begins r
  · obtain ⟨-, ht'⟩ := onClockAlarm_begins hu hb
    refine ⟨hu', ht', ?_⟩
    dsimp only
    rw [hl, ht.op_of_begins hb, if_pos hb]
    rfl
  · refine ⟨hu', ht.waits hb, ?_⟩
    dsimp only
    rw [hl, if_neg hb, onClockAlarm_waits hb, List.append_nil]

theorem Session.Tidy.completes (h : s.Tidy) {op : HttpOp} {c : Completion} (hs : sessionStep s (.completes op c) = some t) :
    t.Tidy := by
  obtain ⟨r, l⟩ := s
  obtain ⟨hu, ht, hl⟩ := h
  dsimp only at hu ht hl
  simp only [sessionStep] at hs
  split at hs
  · rename_i hm
    have ho : op = r.op ∧ l = [op] := by
      rw [hl, startedOps] at hm ⊢
      split at hm
      · cases hm
      · rename_i hi
        cases List.mem_singleton.mp hm
        exact ⟨rfl, if_neg hi⟩
    obtain ⟨rfl, rfl⟩ := ho
    obtain ⟨out, hout, rfl⟩ := Option.map_eq_some_iff.mp hs
    obtain ⟨ht', hc⟩ := ht.completes hout
    refine ⟨?_, ht', ?_⟩
    · rw [show out.1.url = r.url from congrArg Prod.fst hc]
      exact hu
    · dsimp only
      rw [List.erase_cons_head, List.nil_append]
  · cases hs

theorem Session.Tidy.step (h : s.Tidy) {x : Happening} (hs : sessionStep s x = some t) : t.Tidy := by
  cases x with
  | alarm => exact h.alarm hs
  | completes op c => exact h.completes hs

end

/-- The reader never stalls and never doubles up: one open or receive is
outstanding, or none is and the reader starts again after at most three clock
alarms; `do_begin` is not called while an operation is outstanding. -/
theorem one_operation {r : Reader} (hu : r.url ≠ []) {s : Session}
    (h : Reach sessionStep (fun _ _ => True) (.start r) s) :
    Xor (∃ op, op ≠ .idle ∧ s.outstanding = [op])
      (s.outstanding = [] ∧ s.reader.isReaderReady = false ∧
        1 ≤ s.reader.startCutDownTime ∧ s.reader.startCutDownTime ≤ 3) ∧
    (begins s.reader → s.outstanding = []) := by
  have h₀ : (Session.start r).Tidy := ⟨hu, turn_of_idle rfl (asyncBegin_armed _), rfl⟩
  obtain ⟨-, ht, ho⟩ := h.invariant Session.Tidy h₀ fun _ _ _ hs _ hstep => hs.step hstep
  refine ⟨?_, fun hb => by rw [ho, ht.op_of_begins hb]; rfl⟩
  by_cases hi : s.reader.op = .idle
  · obtain ⟨h₁, h₂, h₃⟩ := ht.idle hi
    have hn : s.outstanding = [] := ho.trans (if_pos hi)
    exact .inr ⟨⟨hn, h₁, h₂, h₃⟩, fun ⟨_, _, e⟩ => by cases hn.symm.trans e⟩
  · have hn : s.outstanding = [s.reader.op] := ho.trans (if_neg hi)
    exact .inl ⟨⟨_, hi, hn⟩, fun ⟨e, _⟩ => by cases hn.symm.trans e⟩

/-- A connection is opened at the third alarm and lost. -/
def lostConnection : List Happening :=
  [.alarm, .alarm, .alarm, .completes .opening (.opened true), .alarm, .completes (.receiving 0) .lost]

theorem one_operation_lost :
    ∃ s, runEvents sessionStep (.start (startReader ['u'] false true 1 0)) lostConnection = some s ∧
      Xor (∃ op, op ≠ .idle ∧ s.outstanding = [op])
        (s.outstanding = [] ∧ s.reader.isReaderReady = false ∧
          1 ≤ s.reader.startCutDownTime ∧ s.reader.startCutDownTime ≤ 3) ∧
      (begins s.reader → s.outstanding = []) := by
  obtain ⟨s, hs⟩ : ∃ s, runEvents sessionStep (.start (startReader ['u'] false true 1 0)) lostConnection = some s :=
    ⟨_, rfl⟩
  exact ⟨s, hs, one_operation (by decide) (.of_runIf hs)⟩

end XH.Proof.Cutter
