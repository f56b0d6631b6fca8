import Xhome.Proof.Cutter.Receive

/-!
# Tags and pieces

A connection is an FLV file header and tags. Between two tags the reader asks
for a tag header (`Between`); a tag of the data phase is appended to the piece,
which may have been posted before it (`readTag_needFlvData`), and the tag at
which the header piece is posted begins the first data piece or belongs to the
header (`readTag_needHead`). So the data pieces posted and the piece at hand
are the tags received after the header phase, cut between tags
(`posted_pieces`).
-/

namespace XH.Proof.Cutter

open XH.Impl.Cutter

/-- A tag: its header, and its body with the `PreviousTagSize` behind it. -/
structure Tag where
  head : Buffer
  body : Buffer
  length_head : head.length = flvTagheaderTSize
  length_body : body.length = tagDatasize head + flvPrevioustagsizeSize

/-- The pieces among the calls on the writer. -/
def pieces (calls : List Call) : List Piece :=
  calls.filterMap fun
    | .asyncWritePiece p _ _ => some p
    | _ => none

/-- The reader asks for a tag header. -/
structure Between (r : Reader) : Prop where
  op : r.op = .receiving 0
  readingStat : r.readingStat = .flvTaghead
  readingSize : r.readingSize = flvTagheaderTSize
  length : r.readingBuffer.length = flvTagheaderTSize
  headerOver : r.stat = .needHead → r.isHeaderOver = false

/-- The reader takes a tag. -/
def readTag (r : Reader) (t : Tag) : Reader × List Call := content.run r [t.head, t.body]

/-- The pair that stands for a tag in a piece: only a timestamp may differ, and
only that of an audio or video tag unless `any`. -/
structure Kept (any : Bool) (t : Tag) (p : Buffer × Buffer) : Prop where
  body : p.2 = t.body
  head : Restamped t.head p.1
  exact : any = false → ¬ IsMedia t.head → p.1 = t.head

/-- A piece of whole tags. -/
def pairs (l : List (Buffer × Buffer)) : Piece := l.flatMap fun p => [p.1, p.2]

/-! ## One request -/

theorem overwrite_whole {b : Buffer} {data : List Byte} (h : data.length = b.length) : overwrite b 0 data = data := by
  rw [overwrite, List.take_zero, List.nil_append, List.drop_eq_nil_of_le (by omega), List.append_nil]

/-- The reader with `data` in its buffer. -/
def holding (r : Reader) (data : Buffer) : Reader :=
  { r with op := .idle, peddingCutDownTime := csPeddingCutDownTime, readingBuffer := data }

/-- A request answered at once. -/
theorem recv_whole {r : Reader} (data : Buffer) (ho : r.op = .receiving 0) (hs : r.readingSize = data.length)
    (hl : data.length = r.readingBuffer.length) (h₀ : 0 < data.length) :
    content.recv r data = finish (parse (holding r data)) := by
  have hr : content.recv r data = onContent r 0 data := by simp only [content, ho]
  rw [hr, onContent_filled h₀ (by omega), filled, overwrite_whole hl]
  rfl

/-- After a step of the parser a request is outstanding, or none. -/
theorem finish_cases {o : Out} (ho : o.reader.op = .idle) :
    (finish o).1.op = .idle ∨ (o.resume = true ∧ finish o = (receive o.reader, o.calls)) := by
  unfold finish
  split
  · split
    · exact .inl ho
    · exact .inr ⟨‹_›, rfl⟩
  · exact .inl ho

/-- A tag header asks for the body. -/
theorem parse_head {r : Reader} (hb : Between r) {head : Buffer} (hr : (parse (holding r head)).resume = true) :
    (parse (holding r head)).reader.readingSize = tagDatasize head + flvPrevioustagsizeSize ∧
    (parse (holding r head)).reader.readingStat = .flvTagbody := by
  have ht : (holding r head).readingStat = .flvTaghead := hb.readingStat
  have hp : ∀ {t : Reader}, Restamped head t.readingBuffer →
      (pushTagHead t).readingSize = tagDatasize head + flvPrevioustagsizeSize := fun h => by
    simp only [pushTagHead, h.tagDatasize]
  cases hs : (holding r head).stat with
  | needHead =>
    simp only [parse, hs, ht, needHeadTaghead]
    split
    · exact ⟨hp (Stamps.headerOver (beginTag _ _) _).readingBuffer, rfl⟩
    · exact ⟨hp (.refl head), rfl⟩
  | needFlvData =>
    have he : parse (holding r head) = flvDataTaghead (holding r head) := by simp only [parse, hs, ht]
    rw [he] at hr ⊢
    obtain ⟨s, hst, -, e | ⟨-, e⟩⟩ := flvDataTaghead_cases hr
    · rw [e]; exact ⟨hp (t := countSeek s) hst.readingBuffer, rfl⟩
    · have hb : (countSeek (advanceSlot s).1).readingBuffer = s.readingBuffer := (advanceSlot_frame s).1
      rw [e]; exact ⟨hp (hb ▸ hst.readingBuffer), rfl⟩

theorem run_of_idle {r : Reader} (h : r.op = .idle) (cs : List (List Byte)) : content.run r cs = (r, []) :=
  Receiver.run_of_want_eq_zero (by simp only [content, h]) cs

/-- The header of a tag: the connection ends, or its body is asked for. -/
theorem recv_head {r : Reader} (hb : Between r) (t : Tag) :
    content.want r = t.head.length ∧
    ((content.recv r t.head).1.op = .idle ∨
      ∃ o, parse (holding r t.head) = o ∧ o.resume = true ∧ content.recv r t.head = (receive o.reader, o.calls) ∧
        content.want (receive o.reader) = t.body.length ∧
        content.recv (receive o.reader) t.body = finish (parse (holding o.reader t.body))) := by
  have hl := t.length_head
  have h₁ := recv_whole t.head hb.op (hb.readingSize.trans hl.symm) (hl.trans hb.length.symm)
    (by rw [hl]; exact Nat.succ_pos _)
  refine ⟨by simp only [content, hb.op, hb.readingSize, hl], ?_⟩
  rw [h₁]
  rcases finish_cases (parse_op (holding r t.head)) with hi | ⟨hr, hf⟩
  · exact .inl hi
  · obtain ⟨hsz, -⟩ := parse_head hb hr
    have hsz' : (parse (holding r t.head)).reader.readingSize = t.body.length := hsz.trans t.length_body.symm
    have hlb : t.body.length = (receive (parse (holding r t.head)).reader).readingBuffer.length := by
      rw [← hsz', receive, List.length_replicate]
    refine .inr ⟨_, rfl, hr, hf, hsz', ?_⟩
    exact recv_whole (r := receive _) t.body rfl hsz' hlb (by rw [t.length_body]; exact Nat.succ_pos _)

/-- A tag is taken in two steps of the parser, unless the connection ends. -/
theorem readTag_cases {r : Reader} (hb : Between r) (t : Tag) :
    (readTag r t).1.op = .idle ∨
    ∃ o₁ o₂, parse (holding r t.head) = o₁ ∧ o₁.resume = true ∧ parse (holding o₁.reader t.body) = o₂ ∧
      o₂.resume = true ∧ readTag r t = (receive o₂.reader, o₁.calls ++ o₂.calls) := by
  have hlh : 0 < t.head.length := by rw [t.length_head]; exact Nat.succ_pos _
  have hlb : 0 < t.body.length := by rw [t.length_body]; exact Nat.succ_pos _
  obtain ⟨hw, hi | ⟨o₁, h₁, hr, hf, hw', h₂⟩⟩ := recv_head hb t
  · left
    rw [readTag, Receiver.run, if_neg (by omega)]
    simp only [Receiver.andThen, run_of_idle hi]
    exact hi
  · rw [readTag, Receiver.run, if_neg (by omega), hf]
    simp only [Receiver.andThen, Receiver.run, if_neg (show content.want (receive o₁.reader) ≠ 0 by omega), h₂,
      List.append_nil]
    rcases finish_cases (parse_op (holding o₁.reader t.body)) with hi | ⟨hr', hf'⟩
    · exact .inl hi
    · exact .inr ⟨o₁, _, h₁, hr, rfl, hr', by rw [hf']⟩

/-! ## One tag -/

theorem pieces_append (a b : List Call) : pieces (a ++ b) = pieces a ++ pieces b := List.filterMap_append

theorem pieces_empty (k : Nat) : pieces (List.replicate k (.asyncWritePiece [] 0 0)) = List.replicate k [] := by
  induction k with
  | zero => rfl
  | succ k ih => rw [List.replicate_succ, List.replicate_succ, ← ih]; rfl

theorem pieces_updateHeaders (r : Reader) : pieces (updateHeaders r) = [] := by
  simp only [pieces, updateHeaders, List.filterMap_map, List.filterMap_eq_nil_iff, Function.comp, implies_true]

/-- The body of a tag whose header is the last buffer of the piece. -/
theorem flvDataTagbody_pieces {r : Reader} {P : Piece} {head : Buffer} (hp : r.piece = P ++ [head]) :
    ∃ k, (pieces (flvDataTagbody r).calls = List.replicate k [] ∧
        (flvDataTagbody r).reader.piece = P ++ [head, r.readingBuffer]) ∨
      (r.cutWithKf = true ∧ pieces (flvDataTagbody r).calls = P :: List.replicate k [] ∧
        (flvDataTagbody r).reader.piece = [head, r.readingBuffer]) := by
  obtain ⟨he, k, hk⟩ := insertEmptyPieces_cases (dataTag r).1
  have hb : (insertEmptyPieces (dataTag r).1).1.readingBuffer = r.readingBuffer :=
    (insertEmptyPieces_frame _).2.2.1.trans (dataTag_frame r).2.2.1
  have hpc : (flvDataTagbody r).reader.piece = (dataTag r).1.piece ++ [r.readingBuffer] := by
    simp only [flvDataTagbody, appendTagBody, nextTag, countSeek, he, hb]
  have hc : pieces (flvDataTagbody r).calls = pieces (dataTag r).2 ++ List.replicate k [] := by
    simp only [flvDataTagbody, pieces_append, hk, pieces_empty]
  refine ⟨k, ?_⟩
  rw [hpc, hc]
  rcases dataTag_cases r with ⟨e, e', -⟩ | ⟨-, hkf, e⟩
  · left
    simp only [e, e', hp, pieces, List.filterMap_nil, List.nil_append, List.append_assoc, List.cons_append, and_self]
  · right
    have hu : pieces (dataTag r).2 = [P] := by
      rw [e]
      simp only [cutAtKeyFrame, hp, List.dropLast_concat]
      exact congrArg (P :: ·) (pieces_updateHeaders r)
    rw [hu, e]
    simp only [cutAtKeyFrame, hp, List.getLast?_concat, Option.toList_some, List.cons_append, List.nil_append, hkf,
      and_self]

theorem flvDataTagbody_stat (r : Reader) : (flvDataTagbody r).reader.stat = r.stat :=
  (insertEmptyPieces_frame _).1.trans (dataTag_frame r).1

/-- A request for a tag header. -/
theorem between_receive {r : Reader} (h : r.stat = .needHead → r.isHeaderOver = false) :
    Between (receive (nextTag r)) :=
  ⟨rfl, rfl, rfl, List.length_replicate .., h⟩

/-- A tag of the data phase is appended to the piece, or begins a new one after
the piece has been posted. -/
theorem readTag_needFlvData {r : Reader} (hb : Between r) (hs : r.stat = .needFlvData) (t : Tag) :
    (readTag r t).1.op = .idle ∨
    (Between (readTag r t).1 ∧ (readTag r t).1.stat = .needFlvData ∧
      ∃ head k, Kept false t (head, t.body) ∧
        ((pieces (readTag r t).2 = List.replicate k [] ∧ (readTag r t).1.piece = r.piece ++ [head, t.body]) ∨
          (pieces (readTag r t).2 = r.piece :: List.replicate k [] ∧ (readTag r t).1.piece = [head, t.body]))) := by
  rcases readTag_cases hb t with h | ⟨o₁, o₂, rfl, hr₁, rfl, hr₂, e⟩
  · exact .inl h
  right
  have hp₁ : parse (holding r t.head) = flvDataTaghead (holding r t.head) := by
    simp only [parse, holding, hs, hb.readingStat]
  rw [hp₁] at hr₁ e
  obtain ⟨s, hst, hex, hc⟩ := flvDataTaghead_cases hr₁
  have hstat : s.stat = .needFlvData := hst.stat.trans hs
  have hpiece : s.piece = r.piece := hst.piece
  -- the body, after a header appended to `u`
  have hbody : ∀ u : Reader, u.stat = .needFlvData → u.readingBuffer = s.readingBuffer →
      parse (holding (appendTagHead u) t.body) = flvDataTagbody (holding (appendTagHead u) t.body) ∧
      (flvDataTagbody (holding (appendTagHead u) t.body)).reader.stat = .needFlvData ∧
      (holding (appendTagHead u) t.body).piece = u.piece ++ [s.readingBuffer] := fun u hu hub => by
    refine ⟨?_, (flvDataTagbody_stat _).trans hu, ?_⟩
    · simp only [parse, holding, appendTagHead, pushTagHead, countSeek, hu]
    · simp only [holding, appendTagHead, pushTagHead, countSeek, hub]
  have hk : Kept false t (s.readingBuffer, t.body) := ⟨rfl, hst.readingBuffer, fun _ hm => hex hm⟩
  have hbt : ∀ q : Reader, (flvDataTagbody q).reader.stat = .needFlvData →
      Between (receive (flvDataTagbody q).reader) := fun q hq =>
    between_receive fun h => absurd (h.symm.trans hq) (by decide)
  rcases hc with hc | ⟨-, hc⟩
  · obtain ⟨hp₂, hst₂, hpc⟩ := hbody s hstat rfl
    rw [hc] at e
    rw [e, hp₂]
    refine ⟨hbt _ hst₂, hst₂, s.readingBuffer, ?_⟩
    obtain ⟨k, ⟨h₁, h₂⟩ | ⟨-, h₁, h₂⟩⟩ := flvDataTagbody_pieces hpc
    · exact ⟨k, hk, .inl ⟨h₁, hpiece ▸ h₂⟩⟩
    · exact ⟨k, hk, .inr ⟨hpiece ▸ h₁, h₂⟩⟩
  · obtain ⟨hfb, hfk, hfs, -⟩ := advanceSlot_frame s
    obtain ⟨hp₂, hst₂, hpc⟩ := hbody (advanceSlot s).1 (hfs.trans hstat) hfb
    rw [hc] at e
    rw [e, hp₂]
    refine ⟨hbt _ hst₂, hst₂, s.readingBuffer, ?_⟩
    obtain ⟨k, h⟩ := flvDataTagbody_pieces hpc
    refine ⟨k, hk, ?_⟩
    rw [pieces_append]
    rcases advanceSlot_cases s with ⟨-, hcs, hps⟩ | ⟨hkf, hcs, hps⟩
    · rw [hcs]
      rw [hps, hpiece] at h
      rcases h with ⟨h₁, h₂⟩ | ⟨-, h₁, h₂⟩
      · exact .inl ⟨h₁, h₂⟩
      · exact .inr ⟨h₁, h₂⟩
    · -- a plain cut, after which the body does not cut
      rw [hcs]
      rw [hps] at h
      rcases h with ⟨h₁, h₂⟩ | ⟨hkf', -, -⟩
      · exact .inr ⟨by rw [h₁, hpiece]; rfl, h₂⟩
      · exact absurd ((hfk.trans hkf).symm.trans hkf') (by decide)

/-- A tag of the header phase goes to the header, ends the phase as the first
data tag, or ends it with both heads received. -/
theorem readTag_needHead {r : Reader} (hb : Between r) (hs : r.stat = .needHead) (t : Tag) :
    (readTag r t).1.op = .idle ∨
    (Between (readTag r t).1 ∧
      (((readTag r t).1.stat = .needHead ∧ (readTag r t).2 = []) ∨
        ((readTag r t).1.stat = .needFlvData ∧ ∃ header, (readTag r t).2 = [.asyncWritePiece header 0 0] ∧
          (((readTag r t).1.isHeaderOver = true ∧
              ∃ head, Kept true t (head, t.body) ∧ (readTag r t).1.piece = [head, t.body]) ∨
            ((readTag r t).1.isHeaderOver = false ∧ (readTag r t).1.piece = []))))) := by
  rcases readTag_cases hb t with h | ⟨o₁, o₂, rfl, hr₁, rfl, hr₂, e⟩
  · exact .inl h
  right
  have hp₁ : parse (holding r t.head) = needHeadTaghead (holding r t.head) := by
    simp only [parse, holding, hs, hb.readingStat]
  -- the body, after a header appended to `u`
  have hbody : ∀ u : Reader, u.stat = .needHead →
      parse (holding (pushTagHead u) t.body) = needHeadTagbody (holding (pushTagHead u) t.body) := fun u hu => by
    simp only [parse, holding, pushTagHead, hu]
  obtain ⟨u, hu, hst, hover⟩ := needHeadTaghead_cases (holding r t.head)
  rw [hp₁, hu] at e
  rw [e, hbody u (hst.stat.trans hs), needHeadTagbody]
  have hk : Kept true t (u.readingBuffer, t.body) := ⟨rfl, hst.readingBuffer, fun h => by cases h⟩
  rcases hover with ⟨-, -, hover⟩ | rfl
  · rw [if_pos (show (holding (pushTagHead u) t.body).isHeaderOver = true from hover)]
    refine ⟨between_receive (fun h => by cases h), .inr ⟨rfl, _, rfl, .inl ⟨hover, u.readingBuffer, hk, ?_⟩⟩⟩
    show ((u.piece ++ [u.readingBuffer]).getLast?).toList ++ [t.body] = _
    simp only [List.getLast?_concat, Option.toList_some, List.cons_append, List.nil_append]
  · generalize hq : holding (pushTagHead (beginTag (holding r t.head) (getTagTs (holding r t.head).readingBuffer))) t.body = q
    have hov : q.isHeaderOver = false := by rw [← hq]; exact hb.headerOver hs
    have hqs : q.stat = .needHead := by rw [← hq]; exact hs
    obtain ⟨hfs, -, hfo, -, -⟩ := headTag_frame q
    rw [if_neg (by simp [hov])]
    dsimp only
    split
    · exact ⟨between_receive (fun h => by cases h), .inr ⟨rfl, _, rfl, .inr ⟨hfo.trans hov, rfl⟩⟩⟩
    · exact ⟨between_receive (fun _ => hfo.trans hov), .inl ⟨hfs.trans hqs, rfl⟩⟩

/-! ## A connection -/

/-- The tags after the header phase, the one that ended it apart. -/
def afterHeader (r : Reader) : List Tag → Option Tag × List Tag
  | [] => (none, [])
  | t :: ts =>
    if (readTag r t).1.stat = .needHead then afterHeader (readTag r t).1 ts
    else if (readTag r t).1.isHeaderOver then (some t, ts)
    else (none, ts)

/-- The requests answered by tags. -/
def requests (ts : List Tag) : List (List Byte) := ts.flatMap fun t => [t.head, t.body]

theorem run_requests_cons (r : Reader) (t : Tag) (ts : List Tag) :
    content.run r (requests (t :: ts)) = Receiver.andThen (readTag r t) (content.run · (requests ts)) := by
  rw [requests, List.flatMap_cons, Receiver.run_append]
  rfl

/-- In the data phase the pieces posted and the piece at hand are the piece
before and the tags, cut between tags. -/
theorem run_needFlvData :
    ∀ {r : Reader} (ts : List Tag) (last : List (Buffer × Buffer)), Between r → r.stat = .needFlvData →
      r.piece = pairs last → (content.run r (requests ts)).1.op ≠ .idle →
      ∃ (out : List (List (Buffer × Buffer))) (last' kept : List (Buffer × Buffer)),
        pieces (content.run r (requests ts)).2 = out.map pairs ∧
        (content.run r (requests ts)).1.piece = pairs last' ∧ out.flatten ++ last' = last ++ kept ∧
        List.Forall₂ (Kept false) ts kept
  | r, [], last, _, _, hp, _ => ⟨[], last, [], rfl, hp, by simp, .nil⟩
  | r, t :: ts, last, hb, hs, hp, hop => by
    rw [run_requests_cons] at hop ⊢
    have hne : (readTag r t).1.op ≠ .idle := fun h => hop (by simp only [Receiver.andThen, run_of_idle h]; exact h)
    obtain ⟨hb', hs', head, k, hk, hc⟩ := (readTag_needFlvData hb hs t).resolve_left hne
    have hap : ∀ l : List (Buffer × Buffer), pairs l ++ [head, t.body] = pairs (l ++ [(head, t.body)]) := fun l => by
      simp [pairs]
    have hrep : List.replicate k ([] : Piece) = (List.replicate k []).map pairs := by simp [pairs]
    have hflat : (List.replicate k ([] : List (Buffer × Buffer))).flatten = [] := by simp
    simp only [Receiver.andThen, pieces_append]
    rcases hc with ⟨hc, hpc⟩ | ⟨hc, hpc⟩
    · obtain ⟨out, last', kept, h₁, h₂, h₃, h₄⟩ :=
        run_needFlvData ts (last ++ [(head, t.body)]) hb' hs' (by rw [hpc, hp, hap]) hop
      refine ⟨List.replicate k [] ++ out, last', (head, t.body) :: kept, ?_, h₂, ?_, .cons hk h₄⟩
      · rw [hc, h₁, hrep, List.map_append]
      · rw [List.flatten_append, hflat, List.nil_append, h₃, List.append_assoc]; rfl
    · obtain ⟨out, last', kept, h₁, h₂, h₃, h₄⟩ :=
        run_needFlvData ts [(head, t.body)] hb' hs' (by rw [hpc]; rfl) hop
      refine ⟨last :: (List.replicate k [] ++ out), last', (head, t.body) :: kept, ?_, h₂, ?_, .cons hk h₄⟩
      · rw [hc, h₁, hrep, hp, List.map_cons, List.map_append]; rfl
      · rw [List.flatten_cons, List.flatten_append, hflat, List.nil_append, List.append_assoc, h₃]; rfl

/-- A connection from the header phase: its first piece is the header piece, and
the others and the piece at hand are the tags after the header phase. -/
theorem run_needHead :
    ∀ {r : Reader} (ts : List Tag), Between r → r.stat = .needHead →
      (content.run r (requests ts)).1.op ≠ .idle → (content.run r (requests ts)).1.stat = .needFlvData →
      ∃ (header : Piece) (out : List (List (Buffer × Buffer))) (last ending kept : List (Buffer × Buffer)),
        pieces (content.run r (requests ts)).2 = header :: out.map pairs ∧
        (content.run r (requests ts)).1.piece = pairs last ∧ out.flatten ++ last = ending ++ kept ∧
        List.Forall₂ (Kept true) (afterHeader r ts).1.toList ending ∧
        List.Forall₂ (Kept false) (afterHeader r ts).2 kept
  | r, [], _, hs, _, hd => absurd (hs.symm.trans hd) (by decide)
  | r, t :: ts, hb, hs, hop, hd => by
    rw [run_requests_cons] at hop hd ⊢
    have hne : (readTag r t).1.op ≠ .idle := fun h => hop (by simp only [Receiver.andThen, run_of_idle h]; exact h)
    simp only [Receiver.andThen, pieces_append]
    obtain ⟨hb', ⟨hs', hc⟩ | ⟨hs', header, hc, hp⟩⟩ := (readTag_needHead hb hs t).resolve_left hne
    · rw [afterHeader, if_pos hs', hc]
      exact run_needHead ts hb' hs' hop hd
    · rw [afterHeader, if_neg (by rw [hs']; decide), hc]
      rcases hp with ⟨ho, head, hk, hp⟩ | ⟨ho, hp⟩
      · obtain ⟨out, last, kept, h₁, h₂, h₃, h₄⟩ :=
          run_needFlvData ts [(head, t.body)] hb' hs' (by rw [hp]; rfl) hop
        rw [if_pos ho]
        exact ⟨header, out, last, [(head, t.body)], kept, by rw [h₁]; rfl, h₂, h₃, .cons hk .nil, h₄⟩
      · obtain ⟨out, last, kept, h₁, h₂, h₃, h₄⟩ :=
          run_needFlvData ts [] hb' hs' (by rw [hp]; rfl) hop
        rw [if_neg (by rw [ho]; decide)]
        exact ⟨header, out, last, [], kept, by rw [h₁]; rfl, h₂, h₃, .nil, h₄⟩

theorem readTag_between {r : Reader} (hb : Between r) (t : Tag) :
    (readTag r t).1.op = .idle ∨ Between (readTag r t).1 := by
  cases hs : r.stat with
  | needHead => exact (readTag_needHead hb hs t).imp_right fun h => h.1
  | needFlvData => exact (readTag_needFlvData hb hs t).imp_right fun h => h.1

theorem fits_of_idle {r : Reader} (h : r.op = .idle) (cs : List (List Byte)) : content.Fits r cs :=
  Receiver.fits_of_want_eq_zero (by simp only [content, h]) cs

/-- Tags are answers to the requests of the reader. -/
theorem fits_requests : ∀ {r : Reader} (ts : List Tag), Between r → content.Fits r (requests ts)
  | _, [], _ => trivial
  | r, t :: ts, hb => by
    have hlh : 0 < t.head.length := by rw [t.length_head]; exact Nat.succ_pos _
    have hlb : 0 < t.body.length := by rw [t.length_body]; exact Nat.succ_pos _
    have ht : content.Fits r [t.head, t.body] := by
      obtain ⟨hw, hi | ⟨o₁, -, -, hf, hw', -⟩⟩ := recv_head hb t
      · exact .inr ⟨hlh, hw.ge, fits_of_idle hi _⟩
      · exact .inr ⟨hlh, hw.ge, .inr ⟨hlb, by rw [hf]; exact hw'.ge, trivial⟩⟩
    apply Receiver.fits_append ht
    rcases readTag_between hb t with hi | hb'
    · exact fits_of_idle hi _
    · exact fits_requests ts hb'

/-- The state behind the file header of a connection. -/
def behindFileheader (r : Reader) (head : Buffer) : Reader := (content.run (connect r) [head]).1

/-- The file header: the connection ends, or the tags of the header phase begin. -/
theorem connect_fileheader {r : Reader} (hu : r.url ≠ []) {head : Buffer} (hl : head.length = flvFileheaderTSize) :
    content.Fits (connect r) [head] ∧
    ((behindFileheader r head).op = .idle ∨
      (content.run (connect r) [head] = (behindFileheader r head, []) ∧ Between (behindFileheader r head) ∧
        (behindFileheader r head).stat = .needHead)) := by
  have hd : doBegin r = { r with piece := [], stat := .needHead, readingStat := .head, op := .opening } := if_pos hu
  have hlb : head.length = (connect r).readingBuffer.length := hl
  have hw : content.want (connect r) = head.length := hl.symm
  have hpos : 0 < head.length := by rw [hl]; exact Nat.succ_pos _
  have h₁ : content.run (connect r) [head] = finish (parse (holding (connect r) head)) := by
    have hr := recv_whole (r := connect r) head rfl hw hlb hpos
    rw [Receiver.run, if_neg (by omega), hr]
    exact Receiver.andThen_nil _
  have hp : parse (holding (connect r) head) = needHeadHead (holding (connect r) head) := by
    simp only [parse, holding, connect, hd, onHttpOpen, receive, ite_true]
  refine ⟨.inr ⟨hpos, hw.ge, trivial⟩, ?_⟩
  rw [behindFileheader, h₁, hp, needHeadHead]
  split
  · exact .inr ⟨rfl, ⟨rfl, rfl, rfl, rfl, fun _ => rfl⟩, by simp only [finish, holding, connect, hd]; rfl⟩
  · exact .inl rfl

/-- Whatever the fragmentation of a connection: behind the header piece the
pieces posted and the piece at hand are the tags received after the header
phase, each piece a number of whole tags. Apart from timestamps of audio and
video tags, and of the tag that ended the header phase, they are unchanged. -/
theorem posted_pieces {r : Reader} (hu : r.url ≠ []) {head : Buffer} (hl : head.length = flvFileheaderTSize)
    {tags : List Tag} {cs : List (List Byte)} (hf : content.Fits (connect r) cs)
    (hc : cs.flatten = head ++ (requests tags).flatten) {pos : Nat}
    (hop : (content.run (connect r) cs).1.op = .receiving pos)
    (hs : (content.run (connect r) cs).1.stat = .needFlvData) :
    ∃ (header : Piece) (out : List (List (Buffer × Buffer))) (last ending kept : List (Buffer × Buffer)),
      pieces (content.run (connect r) cs).2 = header :: out.map pairs ∧
      (content.run (connect r) cs).1.piece = pairs last ∧ out.flatten ++ last = ending ++ kept ∧
      List.Forall₂ (Kept true) (afterHeader (behindFileheader r head) tags).1.toList ending ∧
      List.Forall₂ (Kept false) (afterHeader (behindFileheader r head) tags).2 kept := by
  obtain ⟨hfit, hh⟩ := connect_fileheader hu hl
  have hfits : content.Fits (connect r) ([head] ++ requests tags) := by
    apply Receiver.fits_append hfit
    rcases hh with hi | ⟨-, hb, -⟩
    · exact fits_of_idle hi _
    · exact fits_requests tags hb
  have e := run_eq_of_receiving (connect_filling hu) hf hfits hc hop
  rw [e] at hop hs ⊢
  rw [Receiver.run_append] at hop hs ⊢
  rcases hh with hi | ⟨hrun, hb, hst⟩
  · have hi' : (content.run (connect r) [head]).1.op = .idle := hi
    simp only [Receiver.andThen, run_of_idle hi', hi'] at hop
    cases hop
  · rw [hrun] at hop hs ⊢
    exact run_needHead tags hb hst (fun h => by cases h.symm.trans hop) hs

/-- A tag with the timestamp `ts` and the data `data`. -/
def mkTag (type : Byte) (ts : Nat) (data : List Byte) (h : data.length < 2 ^ 8) : Tag where
  head := [type, 0, 0, BitVec.ofNat 8 data.length, BitVec.ofNat 8 (ts / 2 ^ 16), BitVec.ofNat 8 (ts / 2 ^ 8),
    BitVec.ofNat 8 ts, BitVec.ofNat 8 (ts / 2 ^ 24), 0, 0, 0]
  body := data ++ [0, 0, 0, 0]
  length_head := rfl
  length_body := by
    simp only [tagDatasize, flvUI24, byteAt, flvPrevioustagsizeSize, List.length_append]
    simpa using (Nat.mod_eq_of_lt h).symm

def audioHead : Tag := mkTag 8 0 [0xaf, 0] (by decide)

def videoHead (ts : Nat) : Tag := mkTag 9 ts [0x17, 0] (by decide)

/-- The tags with the heads of a stream. -/
def heads : List Tag := [audioHead, videoHead 0]

def audio (ts : Nat) : Tag := mkTag 8 ts [0xaf, 1] (by decide)

def video (ts : Nat) : Tag := mkTag 9 ts [0x27, 1] (by decide)

def videoKey (ts : Nat) : Tag := mkTag 9 ts [0x17, 1] (by decide)

/-- Both heads and two key frames, in one completion a buffer. -/
theorem posted_pieces_keyFrames :
    let r := startReader ['u'] true true 5 0
    let tags := [mkTag 8 0 [0xaf, 0] (by decide), mkTag 9 0 [0x17, 0] (by decide), mkTag 9 1 [0x17, 1] (by decide),
      mkTag 9 2 [0x17, 1] (by decide)]
    ∃ (header : Piece) (out : List (List (Buffer × Buffer))) (last ending kept : List (Buffer × Buffer)),
      pieces (content.run (connect r) (flvHeader :: requests tags)).2 = header :: out.map pairs ∧
      (content.run (connect r) (flvHeader :: requests tags)).1.piece = pairs last ∧
      out.flatten ++ last = ending ++ kept ∧
      List.Forall₂ (Kept true) (afterHeader (behindFileheader r flvHeader) tags).1.toList ending ∧
      List.Forall₂ (Kept false) (afterHeader (behindFileheader r flvHeader) tags).2 kept := by
  intro r tags
  have ho : (content.run (connect r) (flvHeader :: requests tags)).1.op = .receiving 0 := by decide
  exact posted_pieces (by decide) (by decide) (by decide) rfl ho (by decide)

/-- A script tag that ends the header phase of a connection behind the last
timestamp, here one recovered from the disk, is given a new timestamp. -/
theorem posted_pieces_script :
    let r := startReader ['u'] true true 5 5000
    let script := mkTag 18 1 [2, 0, 0] (by decide)
    let out := content.run (connect r) (flvHeader :: requests [mkTag 8 0 [0xaf, 0] (by decide), script])
    (out.1.op = .receiving 0 ∧ out.1.stat = .needFlvData) ∧ ¬ (tagType script.head = 8 ∨ tagType script.head = 9) ∧
    (pieces out.2).tail = [] ∧ out.1.piece = [setTagTs script.head 5500, script.body] ∧
    out.1.piece ≠ [script.head, script.body] := by
  decide

end XH.Proof.Cutter
