import Xhome.Impl.Live.OutStream
import Xhome.Proof.Live.Delivery

/-!
# A frame is cut into its chunks

`ChunkAndSend` gets a frame in pieces and keeps what does not fill a chunk in a
bucket. Whatever the pieces, what it sends is a run of chunks of the frame
(`chunksOf`), each of the size that the other end expects (`Allowed`), and the
bucket is what is left of the pieces (`chunkAndSend_spec`). `Outcome` is what
each of its steps keeps: the connection is the one behind the chunks, but for
the bytes that the channel counts, which are those of the frame until it is
complete.
-/

namespace XH.Proof.Live

open Impl.Live Impl.Live.Connection

variable {τ : Type}

/-! ## Runs of chunks -/

/-- The chunks that are sent with these headers and these data. -/
def chunksOf (xs : List (Header × List Byte)) : List Send := xs.map fun x => .chunk x.1 x.2

theorem sendAll_append (p : Connection τ) (xs ys : List Send) : sendAll p (xs ++ ys) = sendAll (sendAll p xs) ys :=
  List.foldl_append

theorem allAllowed_append {p : Connection τ} {xs ys : List Send} :
    AllAllowed p (xs ++ ys) ↔ AllAllowed p xs ∧ AllAllowed (sendAll p xs) ys := by
  induction xs generalizing p with
  | nil => simp [AllAllowed, sendAll]
  | cons x xs ih =>
    simp only [List.cons_append, AllAllowed, ih, and_assoc]
    rfl

/-! ## What a chunk does to its channel -/

@[simp] theorem setProcBytes_setProcBytes (p : Connection τ) (i n m : Nat) :
    (p.setProcBytes i n).setProcBytes i m = p.setProcBytes i m := by
  simp only [setProcBytes, setChannel_channels, setChannel_setChannel]

theorem setProcBytes_self {p : Connection τ} {i n : Nat} (h : (p.channels i).lastOutProcBytes = n) :
    p.setProcBytes i n = p := by
  subst h
  simp only [setProcBytes, setChannel, Function.update_eq_self]

theorem sendChunk_setProcBytes {p : Connection τ} {h : Header} (hi : IsChannel h.ci) (data : List Byte) (n : Nat) :
    (sendChunk p h data).setProcBytes h.ci n =
      { p.setChannel h.ci (sentTo h (p.channels h.ci) (h.chooseType (p.channels h.ci)).1.ht n) with
        outputBuffer := p.outputBuffer ++ (headerBytes h (p.channels h.ci) ++ data) } := by
  rw [sendChunk_eq hi]
  simp only [setProcBytes, setChannel, Function.update_idem, Function.update_self]
  rfl

theorem sendCounted_eq {p : Connection τ} {h : Header} {data : List Byte} (hi : IsChannel h.ci)
    (hl : (p.channels h.ci).lastOutProcBytes + data.length < 2 ^ 32) :
    p.sendCounted h h.ci data =
      some ((sendChunk p h data).setProcBytes h.ci ((p.channels h.ci).lastOutProcBytes + data.length),
        (h.chooseType (p.channels h.ci)).1) := by
  obtain ⟨hty, ia, time, hc⟩ := exists_chosen h (p.channels h.ci)
  have hn : (noted h (p.channels h.ci)).lastOutProcBytes = (p.channels h.ci).lastOutProcBytes := by
    simp only [noted, hc.eq]
  rw [sendChunk_setProcBytes hi]
  simp only [sendCounted, sendRawData, writeTo_eq hi, if_true, addProcBytes, setChannel_channels, hn, u32_of_lt hl]
  simp only [setChannel, Function.update_idem, List.append_assoc]
  rfl

theorem sendChunk_channels {p : Connection τ} {h : Header} (hi : IsChannel h.ci) (data : List Byte) :
    (sendChunk p h data).channels h.ci = sentTo h (p.channels h.ci) (h.chooseType (p.channels h.ci)).1.ht
      (((p.channels h.ci).lastOutProcBytes + data.length) % h.hf.ml.toNat) := by
  rw [sendChunk_eq hi]
  exact setChannel_channels ..

theorem sendChunk_outboundChunkSize {p : Connection τ} {h : Header} (hi : IsChannel h.ci) (data : List Byte) :
    (sendChunk p h data).outboundChunkSize = p.outboundChunkSize := by
  rw [sendChunk_eq hi]
  rfl

theorem sendChunk_channels_of_ne {p : Connection τ} {h : Header} (hi : IsChannel h.ci) (data : List Byte) {j : Nat}
    (hj : j ≠ h.ci) : (sendChunk p h data).channels j = p.channels j := by
  rw [sendChunk_eq hi]
  exact Function.update_of_ne hj ..

/-! ## A frame on its channel -/

/-- The fields of the header of an audio or video frame that can be sent on channel `i`. -/
structure FrameOn (i : Nat) (f : HeaderFields) : Prop where
  isChannel : IsChannel i
  mt : f.mt ∈ [mtAudioData, mtVideoData]
  si : f.si.toNat < maxStreamsCount
  ml : 0 < f.ml.toNat

/-- A header of the frame. -/
def OfFrame (i : Nat) (f : HeaderFields) (h : Header) : Prop := h.ci = i ∧ h.hf = f

/-- The channel has counted `m` bytes of the frame, which is not complete with them. -/
structure Counts (p : Connection τ) (i : Nat) (f : HeaderFields) (m : Nat) : Prop where
  le : m ≤ f.ml.toNat
  procBytes : (p.channels i).lastOutProcBytes = m % f.ml.toNat
  same : m % f.ml.toNat ≠ 0 → (p.channels i).lastOutHeader.hf = f

section

variable {p : Connection τ} {i m : Nat} {f : HeaderFields} {h : Header}

theorem FrameOn.follows (hf : FrameOn i f) (hh : OfFrame i f h) (hc : Counts p i f m) : Follows h (p.channels h.ci) := by
  obtain ⟨rfl, rfl⟩ := hh
  refine ⟨hf.isChannel, fun e => ?_, fun h0 => hc.same (hc.procBytes ▸ h0)⟩
  have := hf.si
  rw [e] at this
  exact absurd this (by decide)

/-- The next chunk of the frame may be sent. -/
theorem FrameOn.allowed (hf : FrameOn i f) (hh : OfFrame i f h) (hc : Counts p i f m) (hm : m < f.ml.toNat)
    {d : List Byte} (hl : d.length = min p.outboundChunkSize (f.ml.toNat - m)) : Allowed p (.chunk h d) := by
  refine ⟨hf.follows hh hc, hh.2 ▸ hf.mt, hh.2 ▸ hf.si, ?_⟩
  obtain ⟨rfl, rfl⟩ := hh
  rw [hl, chunkSizeOf, hc.procBytes, Nat.mod_eq_of_lt hm]

/-- What is counted behind it. -/
theorem FrameOn.counts (hf : FrameOn i f) (hh : OfFrame i f h) (hc : Counts p i f m) (hm : m < f.ml.toNat)
    {d : List Byte} (hl : m + d.length ≤ f.ml.toNat) : Counts (sendChunk p h d) i f (m + d.length) := by
  obtain ⟨rfl, rfl⟩ := hh
  obtain ⟨hty, ia, time, hch⟩ := exists_chosen h (p.channels h.ci)
  refine ⟨hl, ?_, fun _ => ?_⟩
  · rw [sendChunk_channels hf.isChannel, hc.procBytes, Nat.mod_eq_of_lt hm]
    rfl
  · rw [sendChunk_channels hf.isChannel]
    simp only [sentTo, hch.hf]

/-- `sendCounted` sends the chunk, and counts it without starting over. -/
theorem FrameOn.sendCounted (hf : FrameOn i f) (hh : OfFrame i f h) (hc : Counts p i f m) (hm : m < f.ml.toNat)
    {d : List Byte} (hl : m + d.length ≤ f.ml.toNat) :
    ∃ h', p.sendCounted h i d = some ((sendChunk p h d).setProcBytes i (m + d.length), h') ∧ OfFrame i f h' := by
  have h24 := f.ml.isLt
  obtain ⟨rfl, rfl⟩ := hh
  obtain ⟨hty, ia, time, hch⟩ := exists_chosen h (p.channels h.ci)
  have hp : (p.channels h.ci).lastOutProcBytes = m := by rw [hc.procBytes, Nat.mod_eq_of_lt hm]
  refine ⟨(h.chooseType (p.channels h.ci)).1, ?_, ?_⟩
  · rw [sendCounted_eq hf.isChannel (by omega), hp]
  · rw [hch.hf]
    exact ⟨rfl, rfl⟩

end

/-! ## What the steps of `ChunkAndSend` keep -/

/-- From `p` with `m` bytes of the frame sent and the header `h₀`, the chunks
`xs` have been cut off the front of `data` and `rest` is left; `n` bytes of the
frame are sent then and the header is `h`. -/
structure Outcome (i : Nat) (f : HeaderFields) (p : Connection τ) (m : Nat) (h₀ : Header) (data : List Byte)
    (xs : List (Header × List Byte)) (h : Header) (rest : List Byte) (n : Nat) : Prop where
  allowed : AllAllowed p (chunksOf xs)
  headers : ∀ x ∈ xs, OfFrame i f x.1
  header : OfFrame i f h
  first : ∀ x ∈ xs.head?, x.1 = h₀
  kept : xs = [] → h = h₀
  cut : xs.flatMap (·.2) ++ rest = data
  counts : Counts (sendAll p (chunksOf xs)) i f n
  sent : n + rest.length = m + data.length
  chunkSize : (sendAll p (chunksOf xs)).outboundChunkSize = p.outboundChunkSize
  others : ∀ j ≠ i, (sendAll p (chunksOf xs)).channels j = p.channels j

section

variable {p : Connection τ} {i m n k : Nat} {f : HeaderFields} {h₀ h h' : Header} {data rest rest' d : List Byte}
  {xs ys : List (Header × List Byte)}

theorem Outcome.nil (hh : OfFrame i f h) (hc : Counts p i f m) : Outcome i f p m h data [] h data m where
  allowed := trivial
  headers _ hx := by cases hx
  header := hh
  first _ hx := by cases hx
  kept _ := rfl
  cut := rfl
  counts := hc
  sent := rfl
  chunkSize := rfl
  others _ _ := rfl

theorem Outcome.trans {l : Nat} (o : Outcome i f p m h₀ data xs h rest n)
    (o' : Outcome i f (sendAll p (chunksOf xs)) n h rest ys h' rest' l) :
    Outcome i f p m h₀ data (xs ++ ys) h' rest' l := by
  have ha : chunksOf (xs ++ ys) = chunksOf xs ++ chunksOf ys := List.map_append
  have hs : sendAll p (chunksOf (xs ++ ys)) = sendAll (sendAll p (chunksOf xs)) (chunksOf ys) := by
    rw [ha, sendAll_append]
  refine ⟨?_, fun x hx => ?_, o'.header, fun x hx => ?_, fun e => ?_, ?_, ?_, ?_, ?_, fun j hj => ?_⟩
  · rw [ha, allAllowed_append]
    exact ⟨o.allowed, o'.allowed⟩
  · rcases List.mem_append.mp hx with hx | hx
    · exact o.headers x hx
    · exact o'.headers x hx
  · match xs, o with
    | [], o => exact (o'.first x hx).trans (o.kept rfl)
    | y :: xs, o => exact o.first x hx
  · obtain ⟨e₁, e₂⟩ := List.append_eq_nil_iff.mp e
    exact (o'.kept e₂).trans (o.kept e₁)
  · rw [List.flatMap_append, List.append_assoc, o'.cut, o.cut]
  · rw [hs]
    exact o'.counts
  · rw [o'.sent, o.sent]
  · rw [hs, o'.chunkSize, o.chunkSize]
  · rw [hs, o'.others j hj, o.others j hj]

/-- A chunk. -/
theorem Outcome.chunk (hf : FrameOn i f) (hh : OfFrame i f h) (hh' : OfFrame i f h') (hc : Counts p i f m)
    (hm : m < f.ml.toNat) (hl : d.length = min p.outboundChunkSize (f.ml.toNat - m)) (rest : List Byte) :
    Outcome i f p m h (d ++ rest) [(h, d)] h' rest (m + d.length) := by
  have hci := hh.1
  have hi : IsChannel h.ci := hci ▸ hf.isChannel
  have hle : m + d.length ≤ f.ml.toNat := by omega
  refine ⟨⟨hf.allowed hh hc hm hl, trivial⟩, fun x hx => ?_, hh', fun x hx => ?_, fun e => ?_, ?_,
    hf.counts hh hc hm hle, ?_,
    sendChunk_outboundChunkSize hi d, fun j hj => sendChunk_channels_of_ne hi d (hci ▸ hj)⟩
  · rw [List.mem_singleton.mp hx]
    exact hh
  · cases hx
    rfl
  · cases e
  · rw [List.flatMap_singleton]
  · rw [List.length_append]
    omega

/-- What is counted without starting over. -/
theorem Counts.setProcBytes (hc : Counts p i f m) (hm : m < f.ml.toNat) : p.setProcBytes i m = p :=
  setProcBytes_self (by rw [hc.procBytes, Nat.mod_eq_of_lt hm])

/-- The loop cuts off chunks until there is no whole one left. -/
theorem sendChunks_spec (hf : FrameOn i f) (hk : 0 < p.outboundChunkSize) (fuel : Nat) :
    ∀ (p' : Connection τ) (m : Nat) (h : Header) (data : List Byte), p'.outboundChunkSize = p.outboundChunkSize →
      OfFrame i f h → Counts p' i f m → m + data.length ≤ f.ml.toNat → data.length ≤ fuel →
      ∃ xs h' rest n, (p'.setProcBytes i m).sendChunks p.outboundChunkSize fuel h i data (f.ml.toNat - m) =
          some ((sendAll p' (chunksOf xs)).setProcBytes i n, h', rest, f.ml.toNat - n) ∧
        Outcome i f p' m h data xs h' rest n ∧ rest.length < p.outboundChunkSize := by
  induction fuel with
  | zero =>
    intro p' m h data hp hh hc hl hfu
    exact ⟨[], h, data, m, rfl, .nil hh hc, by omega⟩
  | succ fuel ih =>
    intro p' m h data hp hh hc hl hfu
    have h24 := f.ml.isLt
    by_cases hle : p.outboundChunkSize ≤ data.length
    · have hm : m < f.ml.toNat := by omega
      have ht : (data.take p.outboundChunkSize).length = p.outboundChunkSize := by
        rw [List.length_take]
        omega
      obtain ⟨h₁, hs, hh₁⟩ := hf.sendCounted hh hc hm (show m + (data.take p.outboundChunkSize).length ≤ _ by omega)
      have o₁ : Outcome i f p' m h data [(h, data.take p.outboundChunkSize)] h₁ (data.drop p.outboundChunkSize)
          (m + p.outboundChunkSize) := by
        have hl' : (data.take p.outboundChunkSize).length = min p'.outboundChunkSize (f.ml.toNat - m) := by omega
        have o := Outcome.chunk hf hh hh₁ hc hm hl' (data.drop p.outboundChunkSize)
        rw [List.take_append_drop, ht] at o
        exact o
      have hd := List.length_drop (i := p.outboundChunkSize) (l := data)
      obtain ⟨xs, h', rest, n, he, o, hr⟩ := ih (sendChunk p' h (data.take p.outboundChunkSize))
        (m + p.outboundChunkSize) h₁ (data.drop p.outboundChunkSize) (o₁.chunkSize.trans hp) hh₁ o₁.counts (by omega)
        (by omega)
      refine ⟨(h, data.take p.outboundChunkSize) :: xs, h', rest, n, ?_, o₁.trans o, hr⟩
      rw [hc.setProcBytes hm, sendChunks, if_pos hle, hs, Option.bind_some, ht, sub32_of_le (by omega) (by omega),
        show f.ml.toNat - m - p.outboundChunkSize = f.ml.toNat - (m + p.outboundChunkSize) by omega]
      exact he
    · refine ⟨[], h, data, m, ?_, .nil hh hc, by omega⟩
      rw [sendChunks, if_neg hle]
      rfl

/-- Bytes that follow a chunk on the channel belong to it. -/
theorem sendRawBytes_behind (hf : FrameOn i f) (hh : OfFrame i f h) {bucket more : List Byte}
    (hl : m + (bucket.length + more.length) < 2 ^ 32) :
    (((sendChunk p h bucket).setProcBytes i (m + bucket.length)).sendRawBytes more).addProcBytes i more.length =
      (sendChunk p h (bucket ++ more)).setProcBytes i (m + (bucket.length + more.length)) := by
  obtain ⟨rfl, rfl⟩ := hh
  have hu : u32 (m + bucket.length + more.length) = m + (bucket.length + more.length) := by
    rw [Nat.add_assoc, u32_of_lt hl]
  have hn : ∀ n, (sentTo h (p.channels h.ci) (h.chooseType (p.channels h.ci)).1.ht n).lastOutProcBytes = n :=
    fun _ => rfl
  rw [sendChunk_setProcBytes hf.isChannel, sendChunk_setProcBytes hf.isChannel]
  simp only [sendRawBytes, addProcBytes, setChannel, Function.update_idem, Function.update_self, hn, hu,
    List.append_assoc]
  rfl

/-- The bucket is sent with the data that fill its chunk. -/
theorem bucket_spec (hf : FrameOn i f) (hh : OfFrame i f h) (hc : Counts p i f m) (hm : m < f.ml.toNat)
    (hp : p.outboundChunkSize < 2 ^ 32) {bucket : List Byte} (hb : bucket.length < p.outboundChunkSize)
    (hl : m + (bucket.length + data.length) ≤ f.ml.toNat)
    (hw : ¬ (bucket.length + data.length < p.outboundChunkSize ∧ bucket.length + data.length ≠ f.ml.toNat - m)) :
    ∃ xs h' rest n, sendBucket p.outboundChunkSize p h i bucket data (f.ml.toNat - m) =
          some ((sendAll p (chunksOf xs)).setProcBytes i n, h', rest, f.ml.toNat - n) ∧
        Outcome i f p m h (bucket ++ data) xs h' rest n := by
  by_cases hne : bucket = []
  · subst hne
    refine ⟨[], h, data, m, ?_, .nil hh hc⟩
    rw [sendBucket, if_neg (fun e => e rfl)]
    show _ = some (p.setProcBytes i m, _)
    rw [hc.setProcBytes hm]
  · have h24 := f.ml.isLt
    have hlo : (if p.outboundChunkSize - bucket.length ≤ data.length then p.outboundChunkSize - bucket.length
        else data.length) = min (p.outboundChunkSize - bucket.length) data.length := rfl
    obtain ⟨h₁, hs, hh₁⟩ := hf.sendCounted hh hc hm (show m + bucket.length ≤ _ by omega)
    have hdl : (bucket ++ data.take (min (p.outboundChunkSize - bucket.length) data.length)).length =
        bucket.length + min (p.outboundChunkSize - bucket.length) data.length := by
      rw [List.length_append, List.length_take]
      omega
    have o := Outcome.chunk hf hh hh₁ hc hm (show (bucket ++ data.take (min (p.outboundChunkSize - bucket.length)
      data.length)).length = min p.outboundChunkSize (f.ml.toNat - m) by omega)
      (data.drop (min (p.outboundChunkSize - bucket.length) data.length))
    rw [List.append_assoc, List.take_append_drop, hdl] at o
    refine ⟨[(h, bucket ++ data.take (min (p.outboundChunkSize - bucket.length) data.length))], h₁,
      data.drop (min (p.outboundChunkSize - bucket.length) data.length), _, ?_, o⟩
    have htl : (data.take (min (p.outboundChunkSize - bucket.length) data.length)).length =
        min (p.outboundChunkSize - bucket.length) data.length := by
      rw [List.length_take]
      omega
    have hraw := sendRawBytes_behind hf hh (p := p) (m := m)
      (show m + (bucket.length + (data.take (min (p.outboundChunkSize - bucket.length) data.length)).length) < 2 ^ 32
        by omega)
    have h₁ : sub32 (f.ml.toNat - m) bucket.length = f.ml.toNat - m - bucket.length :=
      sub32_of_le (by omega) (by omega)
    have h₂ : sub32 (f.ml.toNat - m - bucket.length) (min (p.outboundChunkSize - bucket.length) data.length) =
        f.ml.toNat - (m + (bucket.length + min (p.outboundChunkSize - bucket.length) data.length)) := by
      rw [sub32_of_le (by omega) (by omega)]
      omega
    rw [htl] at hraw
    rw [sendBucket, if_pos hne, hs, Option.map_some]
    simp only [sub32_of_le hp (Nat.le_of_lt hb), hlo, hraw, h₁, h₂]
    rfl

/-- What completes the frame is sent although it does not fill a chunk. -/
theorem last_spec (hf : FrameOn i f) (hh : OfFrame i f h) (hc : Counts p i f m) (hl : m + data.length ≤ f.ml.toNat)
    (hd : data.length < p.outboundChunkSize) :
    ∃ xs h' rest n, (p.setProcBytes i m).sendLast h i data (f.ml.toNat - m) =
          some ((sendAll p (chunksOf xs)).setProcBytes i n, h', rest, f.ml.toNat - n) ∧
        Outcome i f p m h data xs h' rest n ∧ rest.length < p.outboundChunkSize ∧
          (n + rest.length = f.ml.toNat → n = f.ml.toNat) := by
  by_cases he : 0 < data.length ∧ data.length = f.ml.toNat - m
  · have hm : m < f.ml.toNat := by omega
    obtain ⟨h₁, hs, hh₁⟩ := hf.sendCounted hh hc hm hl
    have o := Outcome.chunk hf hh hh₁ hc hm (show data.length = min p.outboundChunkSize (f.ml.toNat - m) by omega) []
    rw [List.append_nil] at o
    refine ⟨[(h, data)], h₁, [], m + data.length, ?_, o, ?_, fun e => e⟩
    · rw [sendLast, if_pos he, hc.setProcBytes hm, hs, Option.map_some, show f.ml.toNat - (m + data.length) = 0 by omega]
      rfl
    · rw [List.length_nil]
      omega
  · refine ⟨[], h, data, m, ?_, .nil hh hc, hd, fun e => ?_⟩
    · rw [sendLast, if_neg he]
      rfl
    · omega

/-- `ChunkAndSend` sends chunks of the frame and keeps what does not fill one,
unless the frame is complete with it. A piece that is sent as it is has to be a
chunk already. -/
theorem chunkAndSend_spec (hf : FrameOn i f) (hh : OfFrame i f h) (hc : Counts p i f m) (hm : m < f.ml.toNat)
    (hp : p.outboundChunkSize < 2 ^ 32) {bucket : List Byte} (hb : bucket.length < p.outboundChunkSize)
    (hl : m + (bucket.length + data.length) ≤ f.ml.toNat) {feederChunkSize : Nat}
    (hfast : feederChunkSize = p.outboundChunkSize → bucket = [] →
      data.length = min p.outboundChunkSize (f.ml.toNat - m)) :
    ∃ xs h' rest n, p.chunkAndSend p.outboundChunkSize feederChunkSize h i bucket data =
        some (sendAll p (chunksOf xs), h', rest) ∧
      Outcome i f p m h (bucket ++ data) xs h' rest n ∧ rest.length < p.outboundChunkSize ∧
        (n + rest.length = f.ml.toNat → n = f.ml.toNat) := by
  have h24 := f.ml.isLt
  have hml : ¬ h.hf.ml = 0 := by
    intro e
    have := hf.ml
    rw [← hh.2, e] at this
    exact absurd this (by decide)
  have hpm : (p.channels i).lastOutProcBytes = m := by rw [hc.procBytes, Nat.mod_eq_of_lt hm]
  rw [chunkAndSend, if_neg hml]
  by_cases hq : feederChunkSize = p.outboundChunkSize ∧ bucket = []
  · obtain ⟨rfl, rfl⟩ := hq
    have hd := hfast rfl rfl
    obtain ⟨h₁, hs, hh₁⟩ := hf.sendCounted hh hc hm (show m + data.length ≤ _ by omega)
    have o := Outcome.chunk hf hh hh₁ hc hm hd []
    rw [List.append_nil] at o
    refine ⟨[(h, data)], h₁, [], m + data.length, ?_, o, hb, fun e => e⟩
    rw [if_pos ⟨rfl, rfl⟩, hs, Option.map_some]
    have hmod : (((sendChunk p h data).setProcBytes i (m + data.length)).setProcBytes i
        ((((sendChunk p h data).setProcBytes i (m + data.length)).channels i).lastOutProcBytes % h₁.hf.ml.toNat)) =
        sendChunk p h data := by
      have hn : (((sendChunk p h data).setProcBytes i (m + data.length)).channels i).lastOutProcBytes =
          m + data.length := by
        rw [Connection.setProcBytes, setChannel_channels]
      rw [hn, hh₁.2, setProcBytes_setProcBytes]
      exact setProcBytes_self o.counts.procBytes
    simp only [hmod]
    rfl
  · rw [if_neg hq, hh.2, hpm, sub32_of_le (by omega) hc.le]
    by_cases hw : bucket.length + data.length < p.outboundChunkSize ∧ bucket.length + data.length ≠ f.ml.toNat - m
    · simp only [if_pos hw]
      refine ⟨[], h, bucket ++ data, m, rfl, .nil hh hc, ?_, fun e => ?_⟩
      · rw [List.length_append]
        exact hw.1
      · rw [List.length_append] at e
        omega
    · simp only [if_neg hw]
      have hbd : (bucket ++ data).length = bucket.length + data.length := List.length_append
      obtain ⟨xs₁, h₁, rest₁, n₁, e₁, o₁⟩ := bucket_spec hf hh hc hm hp hb hl hw
      have hsent₁ := o₁.sent
      obtain ⟨xs₂, h₂, rest₂, n₂, e₂, o₂, hr₂⟩ := sendChunks_spec hf (by omega) rest₁.length
        (sendAll p (chunksOf xs₁)) n₁ h₁ rest₁ o₁.chunkSize o₁.header o₁.counts (by omega) (Nat.le_refl _)
      have hsent₂ := o₂.sent
      have hck : (sendAll (sendAll p (chunksOf xs₁)) (chunksOf xs₂)).outboundChunkSize = p.outboundChunkSize :=
        o₂.chunkSize.trans o₁.chunkSize
      obtain ⟨xs₃, h₃, rest₃, n₃, e₃, o₃, hr₃, hfull⟩ := last_spec hf o₂.header o₂.counts (by omega) (hck ▸ hr₂)
      have o := o₁.trans (o₂.trans o₃)
      refine ⟨_, h₃, rest₃, n₃, ?_, o, hck ▸ hr₃, hfull⟩
      have hall : sendAll p (chunksOf (xs₁ ++ (xs₂ ++ xs₃))) =
          sendAll (sendAll (sendAll p (chunksOf xs₁)) (chunksOf xs₂)) (chunksOf xs₃) := by
        simp only [chunksOf, List.map_append, sendAll_append]
      have hend : (if f.ml.toNat - n₃ = 0 then
          ((sendAll p (chunksOf (xs₁ ++ (xs₂ ++ xs₃)))).setProcBytes i n₃).setProcBytes i 0
          else (sendAll p (chunksOf (xs₁ ++ (xs₂ ++ xs₃)))).setProcBytes i n₃) =
          sendAll p (chunksOf (xs₁ ++ (xs₂ ++ xs₃))) := by
        have hle := o.counts.le
        split
        · have hn : n₃ = f.ml.toNat := by omega
          rw [setProcBytes_setProcBytes]
          exact setProcBytes_self (by rw [o.counts.procBytes, hn, Nat.mod_self])
        · exact o.counts.setProcBytes (by omega)
      rw [e₁]
      simp only [Option.bind_eq_bind, Option.bind_some]
      rw [e₂]
      simp only [Option.bind_some]
      rw [e₃]
      simp only [Option.bind_some]
      rw [← hall, hend]

end

end XH.Proof.Live
