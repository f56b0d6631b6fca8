import Xhome.Framework.Fragment
import Xhome.Proof.Cutter.Parser

/-!
# Network fragmentation

The reader as a receiver (`content`): the buffer of an outstanding receive is
filled up to the offset of the receive (`Filling`), `on_content` keeps this,
and two completions of one request leave the reader as one completion with the
bytes of both does. So the calls on the writer and the state of the parser
depend on the bytes of a connection only (`fragmentation_irrelevant`).
-/

namespace XH.Proof.Cutter

open XH.Impl.Cutter

/-- The reader between receive completions. -/
def content : Receiver Reader Byte Call where
  want r := match r.op with
    | .receiving _ => r.readingSize
    | _ => 0
  recv r c := match r.op with
    | .receiving writePos => onContent r writePos c
    | _ => (r, [])

/-- The outstanding receive asks for the rest of the buffer. -/
structure Filling (r : Reader) : Prop where
  parsing : Parsing r
  rest : ∀ {writePos}, r.op = .receiving writePos → writePos + r.readingSize = r.readingBuffer.length
  pos : ∀ {writePos}, r.op = .receiving writePos → 0 < r.readingSize

theorem receive_filling {r : Reader} (hp : Parsing r) (h : 0 < r.readingSize) : Filling (receive r) where
  parsing := hp
  rest ho := by
    simp only [receive, HttpOp.receiving.injEq] at ho
    simp only [receive, List.length_replicate, ← ho, Nat.zero_add]
  pos _ := h

theorem filling_of_idle {r : Reader} (hp : Parsing r) (h : r.op = .idle) : Filling r where
  parsing := hp
  rest ho := by rw [h] at ho; cases ho
  pos ho := by rw [h] at ho; cases ho

/-- A connection is opened by `do_begin` and answered with code 200. -/
def connect (r : Reader) : Reader := onHttpOpen (doBegin r) true

/-- A new connection asks for the file header. -/
theorem connect_filling {r : Reader} (h : r.url ≠ []) : Filling (connect r) := by
  refine receive_filling (fun hs => ?_) (Nat.succ_pos _)
  rw [doBegin, if_pos h] at hs
  cases hs

/-- A finished step leaves a request for a whole new buffer, or none. -/
theorem finish_parse_filling {r : Reader} (hp : Parsing r) (hr : 0 < r.readingSize) (ho : r.op = .idle) :
    Filling (finish (parse r)).1 := by
  have hi : (parse r).reader.op = .idle := (parse_op r).trans ho
  unfold finish
  split
  · rename_i hres
    split
    · exact filling_of_idle (parse_parsing hp) hi
    · exact receive_filling (parse_parsing hp) (parse_readingSize_pos hr hres)
  · exact filling_of_idle (parse_parsing hp) hi

/-! ## Completions -/

theorem length_overwrite {b : Buffer} {o : Nat} {src : List Byte} (h : o + src.length ≤ b.length) :
    (overwrite b o src).length = b.length := by
  simp only [overwrite, List.length_append, List.length_take, List.length_drop]
  omega

/-- Writing two ranges one after the other is writing them at once. -/
theorem overwrite_overwrite {b : Buffer} {o : Nat} {x y : List Byte} (h : o + x.length + y.length ≤ b.length) :
    overwrite (overwrite b o x) (o + x.length) y = overwrite b o (x ++ y) := by
  have hl : (b.take o ++ x).length = o + x.length := by
    simp only [List.length_append, List.length_take]; omega
  have ht : (overwrite b o x).take (o + x.length) = b.take o ++ x := by
    simp only [overwrite, ← hl, List.take_left]
  have hd : (overwrite b o x).drop (o + x.length + y.length) = b.drop (o + (x ++ y).length) := by
    rw [overwrite, ← hl, List.drop_append, List.drop_eq_nil_of_le (by omega), List.nil_append, List.drop_drop,
      hl, List.length_append]
    congr 1
    omega
  rw [overwrite, ht, hd, overwrite, List.append_assoc (b.take o)]

/-- The reader while a request is answered in part. -/
def partly (r : Reader) (writePos : Nat) (data : List Byte) : Reader :=
  { r with
    peddingCutDownTime := csPeddingCutDownTime
    readingBuffer := overwrite r.readingBuffer writePos data
    op := .receiving (writePos + data.length)
    readingSize := r.readingSize - data.length }

/-- A completion that leaves something missing only fills the buffer. -/
theorem onContent_partly {r : Reader} {pos : Nat} {data : List Byte} (hf : Filling r)
    (ho : r.op = .receiving pos) (h₀ : 0 < data.length) (h : data.length < r.readingSize) :
    onContent r pos data = (partly r pos data, []) := by
  have hb := hf.rest ho
  have hl : (overwrite r.readingBuffer pos data).length = r.readingBuffer.length := length_overwrite (by omega)
  have hp : r.readingBuffer.length - r.readingSize + data.length = pos + data.length := by omega
  rw [onContent, if_pos h₀, onData, if_pos h]
  simp only [partly, hl, hp]

/-! ## The size of the last completion

`reading_size_` is what was missing when the last completion came. The parser
does not read it and asks for the next bytes before it goes on, so that only a
restart leaves it. -/

/-- The reader with another `reading_size_`, and a result with such a reader. -/
def withSize (n : Nat) (r : Reader) : Reader := { r with readingSize := n }
def withSize₁ {α : Type} (n : Nat) (out : Reader × α) : Reader × α := (withSize n out.1, out.2)

section
variable (r : Reader) (n ts : Nat)

theorem flvTagTimestamp_withSize : (withSize n r).flvTagTimestamp = r.flvTagTimestamp := rfl

theorem flvTagTsDelta_withSize : (withSize n r).flvTagTsDelta = r.flvTagTsDelta := rfl

theorem gotData_withSize : gotData (withSize n r) = withSize n (gotData r) := rfl

theorem setTs_withSize (delta : Nat) : setTs (withSize n r) ts delta = withSize n (setTs r ts delta) := rfl

theorem assignTs_withSize (delta : Nat) : assignTs (withSize n r) ts delta = withSize n (assignTs r ts delta) := rfl

theorem firstDataTag_withSize : firstDataTag (withSize n r) ts = withSize n (firstDataTag r ts) := by
  simp only [firstDataTag, flvTagTimestamp_withSize, flvTagTsDelta_withSize, assignTs_withSize, setTs_withSize,
    ← gotData_withSize, apply_ite (withSize n)]
  rfl

theorem headerOver_withSize : headerOver (withSize n r) ts = withSize n (headerOver r ts) := by
  have h : ∀ t, setHeaderOver (withSize n t) = withSize n (setHeaderOver t) := fun _ => rfl
  have hg : (withSize n r).gotFirstDataTag = r.gotFirstDataTag := rfl
  simp only [headerOver, firstDataTag_withSize, hg, ← h, apply_ite (withSize n)]

theorem headTag_withSize : headTag (withSize n r) = withSize₁ n (headTag r) := by
  unfold headTag
  simp only [apply_ite (withSize₁ n)]
  rfl

theorem beginData_withSize : beginData (withSize n r) ts = withSize n (beginData r ts) := by
  have hg : (withSize n r).gotFirstDataTag = r.gotFirstDataTag := rfl
  simp only [beginData, hg, flvTagTimestamp_withSize, setTs_withSize, apply_ite (withSize n),
    ← gotData_withSize]
  rfl

theorem stampTag_withSize : stampTag (withSize n r) ts = withSize n (stampTag r ts) := by
  simp only [stampTag, flvTagTimestamp_withSize, flvTagTsDelta_withSize, assignTs_withSize, setTs_withSize,
    apply_ite (withSize n)]
  rfl

theorem placeTag_withSize : placeTag (withSize n r) = withSize n (placeTag r) := by
  have ht : typeTag (withSize n r) = withSize n (typeTag r) := rfl
  unfold placeTag
  rw [ht, beginData_withSize, stampTag_withSize]
  rfl

theorem advanceSlot_withSize : advanceSlot (withSize n r) = withSize₁ n (advanceSlot r) := by
  unfold advanceSlot
  simp only [apply_ite (withSize₁ n)]
  rfl

theorem cutTag_withSize : cutTag (withSize n r) = (cutTag r).map (withSize₁ n) := by
  unfold cutTag
  rw [advanceSlot_withSize]
  simp only [apply_ite (Option.map (withSize₁ n))]
  rfl

theorem dataTag_withSize : dataTag (withSize n r) = withSize₁ n (dataTag r) := by
  unfold dataTag keyFrame
  simp only [apply_ite (withSize₁ n)]
  rfl

theorem insertEmptyPieces_withSize : insertEmptyPieces (withSize n r) = withSize₁ n (insertEmptyPieces r) := by
  unfold insertEmptyPieces
  simp only [apply_ite (withSize₁ n)]
  rfl

end

/-- Outcomes that differ in the `reading_size_` of a restart only. -/
def SameOut (o o' : Out) : Prop :=
  o' = o ∨ (o.resume = false ∧ ∃ n, o' = ⟨withSize n o.reader, o.calls, false⟩)

theorem needHeadHead_withSize (r : Reader) (n : Nat) :
    SameOut (needHeadHead r) (needHeadHead (withSize n r)) := by
  by_cases h : isFlv r.readingBuffer = true
  · left
    rw [needHeadHead, needHeadHead, if_pos h]
    exact if_pos h
  · right
    have h' : needHeadHead (withSize n r) = restart (withSize n r) := if_neg h
    rw [needHeadHead, if_neg h]
    exact ⟨rfl, n, h'⟩

theorem needHeadTaghead_withSize (r : Reader) (n : Nat) :
    needHeadTaghead (withSize n r) = needHeadTaghead r := by
  have hb : ∀ ts, beginTag (withSize n r) ts = withSize n (beginTag r ts) := fun _ => rfl
  unfold needHeadTaghead
  simp only [hb, headerOver_withSize]
  rfl

theorem needHeadTagbody_withSize (r : Reader) (n : Nat) :
    needHeadTagbody (withSize n r) = needHeadTagbody r := by
  unfold needHeadTagbody
  rw [headTag_withSize]
  rfl

theorem flvDataTaghead_withSize (r : Reader) (n : Nat) :
    SameOut (flvDataTaghead r) (flvDataTaghead (withSize n r)) := by
  unfold flvDataTaghead
  rw [placeTag_withSize, cutTag_withSize]
  by_cases h : tagType r.readingBuffer = flvAudiodata ∨ tagType r.readingBuffer = flvVideodata
  · have h' : tagType (withSize n r).readingBuffer = flvAudiodata ∨
      tagType (withSize n r).readingBuffer = flvVideodata := h
    rw [if_pos h, if_pos h']
    cases cutTag (placeTag r) with
    | none => exact .inr ⟨rfl, n, rfl⟩
    | some out => exact .inl rfl
  · left
    rw [if_neg h]
    exact if_neg h

theorem flvDataTagbody_withSize (r : Reader) (n : Nat) :
    flvDataTagbody (withSize n r) = flvDataTagbody r := by
  have h : ∀ out : Reader × List Call, (withSize₁ n out).1 = withSize n out.1 := fun _ => rfl
  simp only [flvDataTagbody, dataTag_withSize, h, insertEmptyPieces_withSize]
  rfl

/-- The outcome of a step of the parser does not depend on `reading_size_`. -/
theorem parse_withSize {r : Reader} (h : Parsing r) (n : Nat) :
    SameOut (parse r) (parse (withSize n r)) := by
  have hs' : (withSize n r).stat = r.stat := rfl
  have hr' : (withSize n r).readingStat = r.readingStat := rfl
  unfold parse
  rw [hs', hr']
  cases hs : r.stat <;> cases hr : r.readingStat
  · exact needHeadHead_withSize r n
  · exact .inl (needHeadTaghead_withSize r n)
  · exact .inl (needHeadTagbody_withSize r n)
  · exact absurd hr (h hs)
  · exact flvDataTaghead_withSize r n
  · exact .inl (flvDataTagbody_withSize r n)

/-! ## Completions of one request -/

/-- The reader with a filled buffer, before the parser's step. -/
def filled (r : Reader) (writePos : Nat) (data : List Byte) : Reader :=
  { r with
    op := .idle, peddingCutDownTime := csPeddingCutDownTime
    readingBuffer := overwrite r.readingBuffer writePos data }

theorem onContent_filled {r : Reader} {pos : Nat} {data : List Byte} (h₀ : 0 < data.length)
    (h : ¬ data.length < r.readingSize) : onContent r pos data = finish (parse (filled r pos data)) := by
  rw [onContent, if_pos h₀, onData, if_neg h]
  rfl

theorem onContent_filling {r : Reader} {pos : Nat} {data : List Byte} (hf : Filling r)
    (ho : r.op = .receiving pos) (h₀ : 0 < data.length) : Filling (onContent r pos data).1 := by
  have hb := hf.rest ho
  by_cases hl : data.length < r.readingSize
  · rw [onContent_partly hf ho h₀ hl]
    refine ⟨hf.parsing, fun hp => ?_, fun _ => Nat.sub_pos_of_lt hl⟩
    simp only [partly, HttpOp.receiving.injEq] at hp
    simp only [partly, length_overwrite (show pos + data.length ≤ r.readingBuffer.length by omega)]
    omega
  · rw [onContent_filled h₀ hl]
    exact finish_parse_filling hf.parsing (hf.pos ho) rfl

/-- What is left of the reader's state when no receive is outstanding. -/
abbrev settled : Reader → Reader := withSize 0

theorem same_finish {o o' : Out} (h : SameOut o o') (ho : o.reader.op = .idle) :
    content.Same settled (finish o) (finish o') := by
  rcases h with rfl | ⟨hr, n, rfl⟩
  · exact .refl _
  · have hw : ∀ m, content.want (withSize m o.reader) = 0 := fun m => by
      simp only [content, withSize, ho]
    have hf : finish o = (o.reader, o.calls) := by simp [finish, hr]
    have hf' : finish ⟨withSize n o.reader, o.calls, false⟩ = (withSize n o.reader, o.calls) := rfl
    rw [hf, hf']
    exact ⟨rfl, .inr ⟨hw o.reader.readingSize, hw n, rfl⟩⟩

/-- Two completions of one request are handled as their concatenation is. -/
theorem onContent_append {r : Reader} {pos : Nat} {x y : List Byte} (hf : Filling r)
    (ho : r.op = .receiving pos) (hx : 0 < x.length) (hy : 0 < y.length) (h : x.length + y.length ≤ r.readingSize) :
    content.Same settled (onContent r pos (x ++ y)) (onContent (partly r pos x) (pos + x.length) y) := by
  have hb := hf.rest ho
  have hxy : (x ++ y).length = x.length + y.length := List.length_append
  have hpf : Filling (partly r pos x) := by
    have := onContent_filling hf ho hx
    rwa [onContent_partly hf ho hx (by omega)] at this
  have hov : overwrite (overwrite r.readingBuffer pos x) (pos + x.length) y = overwrite r.readingBuffer pos (x ++ y) :=
    overwrite_overwrite (by omega)
  by_cases hl : x.length + y.length < r.readingSize
  · have hl' : y.length < (partly r pos x).readingSize := by simp only [partly]; omega
    have he : partly (partly r pos x) (pos + x.length) y = partly r pos (x ++ y) := by
      simp only [partly, hov, hxy, Nat.add_assoc, Nat.sub_sub]
    rw [onContent_partly hf ho (by omega) (by omega), onContent_partly hpf rfl hy hl', he]
    exact .refl _
  · have hl' : ¬ y.length < (partly r pos x).readingSize := by simp only [partly]; omega
    have he : filled (partly r pos x) (pos + x.length) y =
        withSize (r.readingSize - x.length) (filled r pos (x ++ y)) := by
      simp only [filled, partly, withSize, hov]
    rw [onContent_filled (by omega) (by omega), onContent_filled hy hl', he]
    have hp : Parsing (filled r pos (x ++ y)) := hf.parsing
    exact same_finish (parse_withSize hp _) (parse_op _)

theorem receiving_of_want {r : Reader} (h : 0 < content.want r) :
    ∃ pos, r.op = .receiving pos ∧ content.want r = r.readingSize ∧ ∀ c, content.recv r c = onContent r pos c := by
  cases ho : r.op with
  | receiving pos => exact ⟨pos, rfl, by simp only [content, ho], fun c => by simp only [content, ho]⟩
  | idle => simp [content, ho] at h
  | opening => simp [content, ho] at h

theorem content_joins : content.Joins settled Filling where
  recv_inv {r c} hf h₀ h := by
    obtain ⟨pos, ho, hw, hr⟩ := receiving_of_want (h₀.trans_le h)
    rw [hr]
    exact onContent_filling hf ho h₀
  want_recv {r x y} hf hx hy h := by
    obtain ⟨pos, ho, hw, hr⟩ := receiving_of_want (r := r) (by omega)
    rw [hr, hw, onContent_partly hf ho hx (by omega)]
    rfl
  recv_append {r x y} hf hx hy h := by
    obtain ⟨pos, ho, hw, hr⟩ := receiving_of_want (r := r) (by omega)
    rw [hr, hr, onContent_partly hf ho hx (by omega)]
    exact onContent_append hf ho hx hy (hw ▸ h)

theorem want_pos {r : Reader} (hf : Filling r) {pos : Nat} (ho : r.op = .receiving pos) : 0 < content.want r := by
  simp only [content, ho]
  exact hf.pos ho

/-- While a receive is outstanding nothing of the state is left out. -/
theorem run_eq_of_receiving {r : Reader} (hf : Filling r) {cs ds : List (List Byte)} (hc : content.Fits r cs)
    (hd : content.Fits r ds) (h : cs.flatten = ds.flatten) {pos : Nat} (ho : (content.run r cs).1.op = .receiving pos) :
    content.run r cs = content.run r ds := by
  have hs := content_joins.run_same_of_flatten_eq hf hc hd h
  rcases hs.state with e | ⟨hw, -, -⟩
  · exact Prod.ext e hs.outputs
  · exact absurd hw (want_pos (content_joins.run_inv hf hc) ho).ne'

/-- Two ways of splitting the bytes of a connection lead to the same calls on
the writer and to the same state; after a restart, when nothing is received any
more, `reading_size_` is left out. -/
theorem fragmentation_irrelevant {r : Reader} (hu : r.url ≠ []) {cs ds : List (List Byte)}
    (hc : content.Fits (connect r) cs) (hd : content.Fits (connect r) ds) (h : cs.flatten = ds.flatten) :
    (content.run (connect r) cs).2 = (content.run (connect r) ds).2 ∧
    withSize 0 (content.run (connect r) cs).1 = withSize 0 (content.run (connect r) ds).1 ∧
    (∀ pos, (content.run (connect r) cs).1.op = .receiving pos →
      (content.run (connect r) cs).1 = (content.run (connect r) ds).1) := by
  have hs := content_joins.run_same_of_flatten_eq (connect_filling hu) hc hd h
  refine ⟨hs.outputs, hs.apply_eq, fun pos ho => ?_⟩
  rw [run_eq_of_receiving (connect_filling hu) hc hd h ho]

/-- An FLV file header, the header of a script tag with three bytes and a part
of its body, received in three completions and in two. -/
theorem fragmentation_irrelevant_script :
    let r := startReader ['u'] true true 5 0
    let head : List Byte := flvHeader
    let tag : List Byte := [18, 0, 0, 3, 0, 0, 0, 0, 0, 0, 0]
    (content.run (connect r) [head.take 5, head.drop 5, tag, [1, 2]]).1.op = .receiving 2 ∧
    (content.run (connect r) [head.take 5, head.drop 5, tag, [1, 2]]).1 =
      (content.run (connect r) [head, tag, [1], [2]]).1 := by
  refine ⟨by decide, ?_⟩
  exact (fragmentation_irrelevant (by decide) (by decide) (by decide) (by decide)).2.2 2 (by decide)

/-- A file header that is not FLV restarts the reader with the length of the
last completion in `reading_size_`. -/
theorem fragmentation_reading_size :
    let r := startReader ['u'] true true 5 0
    let cs : List (List Byte) := [List.replicate 13 0]
    let ds : List (List Byte) := [List.replicate 12 0, [0]]
    (r.url ≠ [] ∧ content.Fits (connect r) cs ∧ content.Fits (connect r) ds ∧ cs.flatten = ds.flatten) ∧
    (content.run (connect r) cs).1.readingSize = 13 ∧ (content.run (connect r) ds).1.readingSize = 1 ∧
    (content.run (connect r) cs).1 ≠ (content.run (connect r) ds).1 := by
  decide

end XH.Proof.Cutter
