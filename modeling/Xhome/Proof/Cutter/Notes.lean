import Xhome.Proof.Cutter.Sync

/-!
# Runs of the reader with notes

The reader takes its steps whatever the writer does. `Notes` says what is noted
along a run: when a connection is open, and in each step of the parser. What
`do_begin`, a new connection and the steps of the parser keep of the reader's
lasting state (`core`) and the notes holds in every state of every run
(`Notes.invariant`).
-/

namespace XH.Proof.Cutter

open XH.Impl.Cutter

/-- What is noted when a connection is open, and with a filled buffer. -/
structure Notes (γ : Type) where
  connected : γ → γ
  parsed : γ → Reader → γ

/-- The reader with the notes of its run. -/
structure Noted (γ : Type) where
  reader : Reader
  note : γ

/-- The reader with the buffer that the event fills, if it fills one. -/
def answered (r : Reader) : Event → Option Reader
  | .data bytes =>
    match r.op with
    | .receiving pos => if bytes.length < r.readingSize then none else some (filled r pos bytes)
    | _ => none
  | _ => none

namespace Notes

variable {γ : Type} (n : Notes γ)

def after (s : Noted γ) : Event → γ
  | .opened true => n.connected s.note
  | e => match answered s.reader e with
    | some r => n.parsed s.note r
    | none => s.note

def step (s : Noted γ) (e : Event) : Option (Noted γ) :=
  (readerStep s.reader e).map fun out => ⟨out.1, n.after s e⟩

/-- The step of the parser, if there is one, meets `ok`. -/
def Meets (ok : γ → Reader → Prop) (s : Noted γ) (e : Event) : Prop := ∀ r ∈ answered s.reader e, ok s.note r

instance (ok : γ → Reader → Prop) [∀ g r, Decidable (ok g r)] (s : Noted γ) (e : Event) : Decidable (Meets ok s e) :=
  inferInstanceAs (Decidable (∀ r ∈ answered s.reader e, ok s.note r))

end Notes

/-- The buffer has room for what is being read. -/
def Sized (r : Reader) : Prop := r.readingStat = .flvTaghead → r.readingBuffer.length = flvTagheaderTSize

/-- The parser asks for a tag header of its size. -/
theorem parse_sized {r : Reader} (hr : (parse r).resume = true) (hp : Parsing r)
    (h : (parse r).reader.readingStat = .flvTaghead) : (parse r).reader.readingSize = flvTagheaderTSize := by
  cases hs : r.stat <;> cases ht : r.readingStat <;> simp only [parse, hs, ht] at hr h ⊢
  · simp only [needHeadHead] at hr ⊢
    split at hr
    · rename_i hf; rw [if_pos hf]
    · cases hr
  · obtain ⟨u, e, -, -⟩ := needHeadTaghead_cases r
    rw [e] at h
    cases h
  · simp only [needHeadTagbody]
    split
    · rfl
    · split
      · rfl
      · rfl
  · exact absurd ht (hp hs)
  · obtain ⟨s, -, -, e | ⟨-, e⟩⟩ := flvDataTaghead_cases hr
    · rw [e] at h
      cases h
    · rw [e] at h
      cases h
  · rfl

/-- The reader without the outstanding operation and its countdowns. -/
def core (r : Reader) : Reader :=
  { r with
    op := .idle, peddingCutDownTime := 0, startCutDownTime := 0, isReaderReady := false, readingBuffer := [], readingSize := 0 }

/-- The state that `do_begin` sets. -/
def rewound (r : Reader) : Reader := { r with piece := [], stat := .needHead, readingStat := .head }

theorem core_finish (o : Out) : core (finish o).1 = core o.reader := by
  unfold finish
  split
  · split
    · rfl
    · rfl
  · rfl

namespace Notes

variable {γ : Type} {n : Notes γ} {ok : γ → Reader → Prop} {I J : Reader → γ → Prop}

/-- What the single actions of the reader keep: `J` at all times, `I` as well
while a connection is being received. -/
structure Keeps (n : Notes γ) (ok : γ → Reader → Prop) (I J : Reader → γ → Prop) : Prop where
  lasts : ∀ r g, I r g → J r g
  begin : ∀ r g, J r g → J (rewound r) g
  connect : ∀ r g, J (rewound r) g → I (rewound r) (n.connected g)
  stops : ∀ r g, I (core r) g → Sized r → ok g r → (parse r).resume = false → J (core (parse r).reader) (n.parsed g r)
  parse : ∀ r g, I (core r) g → Sized r → ok g r → (parse r).resume = true → I (core (parse r).reader) (n.parsed g r)

/-- The properties hold, a connection being opened is at its start, and an
outstanding receive fills a buffer of the right size. -/
structure Holds (I J : Reader → γ → Prop) (s : Noted γ) : Prop where
  note : J (core s.reader) s.note
  live : ∀ {pos}, s.reader.op = .receiving pos → I (core s.reader) s.note
  opening : s.reader.op = .opening → core s.reader = rewound (core s.reader)
  filling : Filling s.reader
  sized : ∀ {pos}, s.reader.op = .receiving pos → Sized s.reader

section
variable {s : Noted γ}

theorem Keeps.tick (hI : n.Keeps ok I J) (hs : Holds I J s) : Holds I J ⟨readerOnClockAlarm s.reader, s.note⟩ := by
  have hf := hs.filling
  unfold readerOnClockAlarm doBegin
  dsimp only
  split_ifs
  · exact ⟨hs.note, hs.live, hs.opening, ⟨hf.parsing, hf.rest, hf.pos⟩, hs.sized⟩
  · refine ⟨hI.begin _ _ hs.note, (fun e => by cases e), fun _ => rfl, ⟨?_, ?_, ?_⟩, fun e => by cases e⟩
    · exact fun e => by cases e
    · exact fun e => by cases e
    · exact fun e => by cases e
  · exact ⟨hs.note, (fun e => by cases e), (fun e => by cases e), filling_of_idle hf.parsing rfl, fun e => by cases e⟩
  · exact ⟨hs.note, hs.live, hs.opening, ⟨hf.parsing, hf.rest, hf.pos⟩, hs.sized⟩

theorem Keeps.opened (hI : n.Keeps ok I J) (hs : Holds I J s) (ho : s.reader.op = .opening) :
    Holds I J ⟨onHttpOpen s.reader true, n.connected s.note⟩ := by
  have hc := hs.opening ho
  have hr : s.reader.readingStat = .head := congrArg Reader.readingStat hc
  have hst : s.reader.stat = .needHead := congrArg Reader.stat hc
  have hnote : I (core s.reader) (n.connected s.note) := by
    rw [hc]
    exact hI.connect _ _ (hc ▸ hs.note)
  refine ⟨hI.lasts _ _ hnote, fun _ => hnote, (fun e => by cases e), ?_, fun _ e => by cases hr.symm.trans e⟩
  · exact receive_filling (fun e => by cases hst.symm.trans e) (Nat.succ_pos _)

theorem Keeps.data (hI : n.Keeps ok I J) (hs : Holds I J s) {pos : Nat} {bytes : List Byte} (hop : s.reader.op = .receiving pos)
    (h₀ : 0 < bytes.length) (hl : bytes.length ≤ s.reader.readingSize) (hok : Meets ok s (.data bytes)) :
    Holds I J ⟨(onContent s.reader pos bytes).1, n.after s (.data bytes)⟩ := by
  have hf : Filling (onContent s.reader pos bytes).1 := onContent_filling hs.filling hop h₀
  have hlen : (overwrite s.reader.readingBuffer pos bytes).length = s.reader.readingBuffer.length :=
    length_overwrite (by have := hs.filling.rest hop; omega)
  by_cases hlt : bytes.length < s.reader.readingSize
  · have ha : answered s.reader (.data bytes) = none := by simp only [answered, hop, if_pos hlt]
    have hnote : n.after s (.data bytes) = s.note := by simp only [after, ha]
    have he := onContent_partly hs.filling hop h₀ hlt
    rw [hnote]
    rw [he] at hf ⊢
    refine ⟨hs.note, fun _ => hs.live hop, (fun e => by cases e), hf, fun _ e => ?_⟩
    exact hlen.trans (hs.sized hop e)
  · have ha : answered s.reader (.data bytes) = some (filled s.reader pos bytes) := by
      simp only [answered, hop, if_neg hlt]
    have hnote : n.after s (.data bytes) = n.parsed s.note (filled s.reader pos bytes) := by simp only [after, ha]
    have hsz : Sized (filled s.reader pos bytes) := fun e => hlen.trans (hs.sized hop e)
    rw [hnote]
    rw [onContent_filled h₀ hlt] at hf ⊢
    have hlive : ∀ {pos'}, (finish (Impl.Cutter.parse (filled s.reader pos bytes))).1.op = .receiving pos' →
        (Impl.Cutter.parse (filled s.reader pos bytes)).resume = true ∧
        finish (Impl.Cutter.parse (filled s.reader pos bytes)) = (receive _, _) := fun e => by
      rcases finish_cases (parse_op (filled s.reader pos bytes)) with hi | h
      · rw [hi] at e
        cases e
      · exact h
    have hkeep := hI.parse (filled s.reader pos bytes) s.note (hs.live hop) hsz (hok _ ha)
    refine ⟨?_, fun e => ?_, fun e => ?_, hf, fun e => ?_⟩
    · show J (core (finish (Impl.Cutter.parse (filled s.reader pos bytes))).1) _
      rw [core_finish]
      cases hres : (Impl.Cutter.parse (filled s.reader pos bytes)).resume with
      | true => exact hI.lasts _ _ (hkeep hres)
      | false => exact hI.stops _ _ (hs.live hop) hsz (hok _ ha) hres
    · show I (core (finish (Impl.Cutter.parse (filled s.reader pos bytes))).1) _
      rw [core_finish]
      exact hkeep (hlive e).1
    · obtain ⟨-, -, ⟨-, _, h⟩ | ⟨-, h⟩, -⟩ := finish_outcome (r := filled s.reader pos bytes) rfl
      · rw [h] at e
        cases e
      · rw [h] at e
        cases e
    · show Sized (finish _).1
      rw [(hlive e).2]
      intro hrs
      show (List.replicate _ _).length = _
      rw [List.length_replicate]
      exact parse_sized (hlive e).1 hs.filling.parsing hrs

theorem Keeps.step (hI : n.Keeps ok I J) {t : Noted γ} {e : Event} (hs : Holds I J s) (hok : Meets ok s e)
    (h : n.step s e = some t) : Holds I J t := by
  obtain ⟨out, hout, rfl⟩ := Option.map_eq_some_iff.mp h
  have hlost : ∀ {r : Reader}, core r = core s.reader → r.op = .idle → Holds I J ⟨r, s.note⟩ := fun {r} hc hi => by
    have hn : ∀ {op : HttpOp}, op ≠ .idle → r.op ≠ op := fun h e => h (e.symm.trans hi)
    refine ⟨by rw [hc]; exact hs.note, fun e => absurd e (hn (by simp)), fun e => absurd e (hn (by simp)),
      filling_of_idle ?_ hi, fun e => absurd e (hn (by simp))⟩
    have hst : r.stat = s.reader.stat := show (core r).stat = (core s.reader).stat from congrArg Reader.stat hc
    have hrs : r.readingStat = s.reader.readingStat :=
      show (core r).readingStat = (core s.reader).readingStat from congrArg Reader.readingStat hc
    rw [Parsing, hst, hrs]
    exact hs.filling.parsing
  cases e with
  | tick => cases hout; exact hI.tick hs
  | opened ok =>
    simp only [readerStep] at hout
    split at hout
    · cases hout
      cases ok with
      | false => exact hlost rfl rfl
      | true => exact hI.opened hs ‹_›
    · cases hout
  | data bytes =>
    simp only [readerStep] at hout
    split at hout
    · split at hout
      · rename_i hb
        cases hout
        exact hI.data hs ‹_› hb.1 hb.2 hok
      · cases hout
    · cases hout
  | lost =>
    simp only [readerStep] at hout
    split at hout
    · cases hout
      exact hlost rfl rfl
    · cases hout
  | handle fuel => cases hout
  | alarm fuel => cases hout

end

theorem invariant (hI : n.Keeps ok I J) {s₀ s : Noted γ} (h₀ : J (core s₀.reader) s₀.note) (ho : s₀.reader.op = .idle)
    (hp : Parsing s₀.reader) (h : Reach n.step (Meets ok) s₀ s) : J (core s.reader) s.note := by
  have hn : ∀ {op : HttpOp}, op ≠ .idle → s₀.reader.op ≠ op := fun h e => h (e.symm.trans ho)
  have hs₀ : Holds I J s₀ := ⟨h₀, fun e => absurd e (hn (by simp)), fun e => absurd e (hn (by simp)),
    filling_of_idle hp ho, fun e => absurd e (hn (by simp))⟩
  exact (h.invariant (Holds I J) hs₀ fun _ _ _ hs hok hstep => hI.step hs hok hstep).note

end Notes

end XH.Proof.Cutter
