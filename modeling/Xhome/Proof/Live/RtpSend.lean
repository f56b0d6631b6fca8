import Mathlib.Data.List.Chain
import Xhome.Impl.Live.Rtp

/-!
# The packets of a video that goes out

`fragments` says which part of which NAL unit each packet carries: the packets
sent are theirs with running sequence numbers (`sendNals_eq`), each goes on where
the one before it has ended (`fragments_follow`), and the last ones of each are
the NAL units themselves (`fragments_last`).
-/

namespace XH.Proof.Live

open Impl.Live Impl.Live.OutRtpStream

/-! ## Fragments -/

/-- What a packet carries: the bytes of `nal` from `offset` on, `size` of them. -/
structure Fragment where
  nal : List Byte
  ts : Nat
  offset : Nat
  size : Nat

namespace Fragment

def last (f : Fragment) : Bool := decide (f.offset + f.size = f.nal.length)

def indicator (f : Fragment) : Byte := (f.nal.getD 0 0 &&& 0xe0) ||| 28

def fuHeader (f : Fragment) : Byte :=
  if f.offset = 0 then (f.nal.getD 0 0 &&& 0x1f) ||| 0x80
  else if f.last then (f.nal.getD 0 0 &&& 0x1f) ||| 0x40
  else f.nal.getD 0 0 &&& 0x1f

def part (f : Fragment) : List Byte := (f.nal.drop f.offset).take f.size

def payload (f : Fragment) : List Byte :=
  if f.size = f.nal.length then f.nal
  else [f.indicator, f.fuHeader] ++ if f.offset = 0 then f.part.drop 1 else f.part

/-- The packet of a fragment. -/
def packet (f : Fragment) (counter ssrc : Nat) : List Byte :=
  [0x80, if f.last then 0xe1 else 0x61] ++ beBytes 2 counter ++ beBytes 4 f.ts ++ beBytes 4 ssrc ++ f.payload

/-- There is something in it, and it is in its NAL unit. -/
structure Ok (f : Fragment) : Prop where
  pos : 0 < f.size
  le : f.offset + f.size ≤ f.nal.length

/-- `g` is what comes after `f`. -/
def Follows (f g : Fragment) : Prop :=
  if f.last then g.offset = 0 else g.nal = f.nal ∧ g.ts = f.ts ∧ g.offset = f.offset + f.size

end Fragment

/-- The fragments of the NAL unit from `offset` on. -/
def fragLoop (max : Nat) (nal : List Byte) (ts : Nat) : (fuel offset : Nat) → List Fragment
  | 0, _ => []
  | fuel + 1, offset =>
    if nal.drop offset = [] then []
    else
      let size := min (nal.length - offset) max
      ⟨nal, ts, offset, size⟩ :: fragLoop max nal ts fuel (offset + size)

/-- The fragments of NAL units that are sent one after the other, each at its time. -/
def fragments (max : Nat) (nals : List (List Byte × Nat)) : List Fragment :=
  nals.flatMap fun x => fragLoop max x.1 x.2 x.1.length 0

/-- NAL units are sent one after the other. -/
def sendNals (s : OutRtpStream) : List (List Byte × Nat) → OutRtpStream × List (List Byte)
  | [] => (s, [])
  | (nal, ts) :: nals =>
    let (s, packets) := s.feedDataVideoFUA nal 0 nal.length ts
    let (s, more) := sendNals s nals
    (s, packets ++ more)

/-- The packets with the sequence numbers from `counter` on. -/
def packetsFrom (ssrc : Nat) : (counter : Nat) → List Fragment → List (List Byte)
  | _, [] => []
  | counter, f :: fs => f.packet (counter % 2 ^ 16) ssrc :: packetsFrom ssrc (counter + 1) fs

theorem packetsFrom_append (ssrc : Nat) (fs gs : List Fragment) :
    ∀ counter, packetsFrom ssrc counter (fs ++ gs) =
      packetsFrom ssrc counter fs ++ packetsFrom ssrc (counter + fs.length) gs := by
  induction fs with
  | nil =>
    intro counter
    rfl
  | cons f fs ih =>
    intro counter
    rw [List.cons_append, packetsFrom, ih, packetsFrom, List.cons_append, List.length_cons, Nat.add_right_comm,
      Nat.add_assoc counter]

theorem packetsFrom_getElem? (ssrc : Nat) (fs : List Fragment) :
    ∀ counter i : Nat, (packetsFrom ssrc counter fs)[i]? =
      fs[i]?.map fun f => f.packet ((counter + i) % 2 ^ 16) ssrc := by
  induction fs with
  | nil =>
    intro counter i
    rfl
  | cons f fs ih =>
    intro counter i
    cases i with
    | zero => rfl
    | succ i =>
      rw [packetsFrom, List.getElem?_cons_succ, List.getElem?_cons_succ, ih, Nat.add_right_comm, Nat.add_assoc counter]

theorem length_packetsFrom (ssrc : Nat) (fs : List Fragment) :
    ∀ c : Nat, (packetsFrom ssrc c fs).length = fs.length := by
  induction fs with
  | nil =>
    intro c
    rfl
  | cons f fs ih =>
    intro c
    rw [packetsFrom, List.length_cons, List.length_cons, ih]

/-! ## A NAL unit is sent -/

/-- The bytes 12 and 13 of the header are those of the NAL unit. -/
def OfNal (s : OutRtpStream) (nal : List Byte) : Prop :=
  s.fuIndicator = (nal.getD 0 0 &&& 0xe0) ||| 28 ∧ s.fuHeader &&& 0x1f = nal.getD 0 0 &&& 0x1f

/-- What sending leaves as it is. -/
structure SameOut (s s' : OutRtpStream) : Prop where
  max : s'.maxRTPPacketSize = s.maxRTPPacketSize
  ssrc : s'.videoSsrc = s.videoSsrc
  buffer : s'.videoBuffer = s.videoBuffer

theorem fuHeader_masks : ∀ b : Byte, ((b &&& 0x1f) ||| 0x80) &&& 0x1f = b &&& 0x1f ∧
    ((b &&& 0x1f) ||| 0x40) &&& 0x1f = b &&& 0x1f ∧ (b &&& 0x1f) &&& 0x1f = b &&& 0x1f := by decide

theorem rtpChunk_eq {s : OutRtpStream} {nal : List Byte} {o : Nat} (ts : Nat) (ho : nal.drop o ≠ [])
    (hs : o ≠ 0 → OfNal s nal) :
    ∃ s', s.sendChunk (nal.drop o) o nal.length ts =
        (s', (⟨nal, ts, o, min (nal.length - o) s.maxRTPPacketSize⟩ : Fragment).packet s.videoCounter s.videoSsrc) ∧
      SameOut s s' ∧ s'.videoCounter = (s.videoCounter + 1) % 2 ^ 16 ∧
      (o + min (nal.length - o) s.maxRTPPacketSize < nal.length → OfNal s' nal) := by
  have hlt : o < nal.length := by
    rw [Ne, List.drop_eq_nil_iff] at ho
    omega
  have hlen : (nal.drop o).length = nal.length - o := List.length_drop
  have hsize : min (nal.length - o) s.maxRTPPacketSize ≤ nal.length - o := Nat.min_le_left _ _
  simp only [sendChunk, hlen, Fragment.packet, Fragment.payload, Fragment.part, Fragment.last, Fragment.fuHeader,
    Fragment.indicator, rtpHeader]
  generalize min (nal.length - o) s.maxRTPPacketSize = size at hsize ⊢
  by_cases hw : size = nal.length
  · -- all of it
    obtain rfl : o = 0 := by omega
    rw [if_pos hw, if_pos hw, hw, List.drop_zero, List.take_length]
    exact ⟨_, rfl, ⟨rfl, rfl, rfl⟩, rfl, fun h => by omega⟩
  · rw [if_neg hw, if_neg hw]
    by_cases h0 : o = 0
    · subst h0
      rw [if_pos rfl, if_pos rfl, if_pos rfl, List.drop_zero, List.append_assoc]
      exact ⟨_, rfl, ⟨rfl, rfl, rfl⟩, rfl, fun _ => ⟨rfl, (fuHeader_masks _).1⟩⟩
    · obtain ⟨hi, hh⟩ := hs h0
      rw [if_neg h0, if_neg h0, if_neg h0, hi, hh, List.append_assoc]
      refine ⟨_, rfl, ⟨rfl, rfl, rfl⟩, rfl, fun _ => ⟨rfl, ?_⟩⟩
      show (if _ then _ else _) &&& (0x1f : Byte) = _
      split
      · exact (fuHeader_masks _).2.1
      · exact (fuHeader_masks _).2.2

/-- What is left of a NAL unit is sent in its fragments. -/
theorem sendChunks_eq {max : Nat} (nal : List Byte) (ts : Nat) (fuel : Nat) :
    ∀ {o c : Nat} {s : OutRtpStream}, s.maxRTPPacketSize = max → s.videoCounter = c % 2 ^ 16 →
      (0 < o → o < nal.length → OfNal s nal) →
      ∃ s', sendChunks nal.length ts fuel s (nal.drop o) o =
          (s', packetsFrom s.videoSsrc c (fragLoop max nal ts fuel o)) ∧
        SameOut s s' ∧ s'.videoCounter = (c + (fragLoop max nal ts fuel o).length) % 2 ^ 16 := by
  induction fuel with
  | zero =>
    intro o c s hm hc hs
    exact ⟨s, rfl, ⟨rfl, rfl, rfl⟩, hc⟩
  | succ fuel ih =>
    intro o c s hm hc hs
    rw [sendChunks, fragLoop]
    by_cases hd : nal.drop o = []
    · rw [if_pos hd, if_pos hd]
      exact ⟨s, rfl, ⟨rfl, rfl, rfl⟩, hc⟩
    · rw [if_neg hd, if_neg hd]
      have hlt : o < nal.length := by
        rw [List.drop_eq_nil_iff] at hd
        omega
      obtain ⟨s₁, he, hsame, hcount, hof⟩ := rtpChunk_eq ts hd fun h0 => hs (by omega) hlt
      obtain ⟨s₂, he₂, hsame₂, hcount₂⟩ := ih (o := o + min (nal.length - o) max) (c := c + 1) (hsame.max.trans hm)
        (by rw [hcount, hc]; omega) fun _ h => hof (by rw [hm]; exact h)
      rw [hm] at he
      rw [he]
      simp only [List.length_drop, hm, List.drop_drop, he₂, hsame.ssrc, packetsFrom, hc]
      refine ⟨s₂, rfl, ⟨?_, ?_, ?_⟩, ?_⟩
      · rw [hsame₂.max, hsame.max]
      · rw [hsame₂.ssrc, hsame.ssrc]
      · rw [hsame₂.buffer, hsame.buffer]
      · rw [hcount₂, List.length_cons]
        omega

/-- NAL units are sent in their fragments. -/
theorem sendNals_eq {max : Nat} (nals : List (List Byte × Nat)) :
    ∀ {c : Nat} {s : OutRtpStream}, s.maxRTPPacketSize = max → s.videoCounter = c % 2 ^ 16 →
      ∃ s', sendNals s nals = (s', packetsFrom s.videoSsrc c (fragments max nals)) ∧ SameOut s s' ∧
        s'.videoCounter = (c + (fragments max nals).length) % 2 ^ 16 := by
  induction nals with
  | nil =>
    intro c s hm hc
    exact ⟨s, rfl, ⟨rfl, rfl, rfl⟩, hc⟩
  | cons x nals ih =>
    intro c s hm hc
    obtain ⟨nal, ts⟩ := x
    obtain ⟨s₁, he, hsame, hcount⟩ := sendChunks_eq nal ts nal.length (o := 0) hm hc fun h => absurd h (by omega)
    obtain ⟨s₂, he₂, hsame₂, hcount₂⟩ := ih (hsame.max.trans hm) hcount
    rw [List.drop_zero] at he
    refine ⟨s₂, ?_, ⟨?_, ?_, ?_⟩, ?_⟩
    · simp only [sendNals, feedDataVideoFUA, he, he₂, hsame.ssrc, fragments, List.flatMap_cons, packetsFrom_append]
    · rw [hsame₂.max, hsame.max]
    · rw [hsame₂.ssrc, hsame.ssrc]
    · rw [hsame₂.buffer, hsame.buffer]
    · rw [hcount₂, fragments, fragments, List.flatMap_cons, List.length_append, Nat.add_assoc]

/-! ## What the fragments are -/

theorem fragLoop_ok {max : Nat} (hmax : 0 < max) (nal : List Byte) (ts : Nat) (fuel : Nat) :
    ∀ {o : Nat}, ∀ f ∈ fragLoop max nal ts fuel o, f.nal = nal ∧ f.ts = ts ∧ f.Ok := by
  induction fuel with
  | zero =>
    intro o f hf
    cases hf
  | succ fuel ih =>
    intro o f hf
    rw [fragLoop] at hf
    split at hf
    · cases hf
    · rename_i hd
      rw [List.drop_eq_nil_iff] at hd
      rcases List.mem_cons.mp hf with rfl | hf
      · refine ⟨rfl, rfl, ?_, ?_⟩
        · show 0 < min (nal.length - o) max
          omega
        · show o + min (nal.length - o) max ≤ nal.length
          omega
      · exact ih f hf

/-- The fragments of the rest of a NAL unit: the first is at `o`, each is followed
by the next, and the last one alone ends the unit. -/
theorem fragLoop_chain {max : Nat} (hmax : 0 < max) (nal : List Byte) (ts : Nat) (fuel : Nat) :
    ∀ {o : Nat}, nal.length ≤ o + fuel →
      (∀ f ∈ (fragLoop max nal ts fuel o).head?, f.offset = o) ∧
      (fragLoop max nal ts fuel o).IsChain Fragment.Follows ∧
      (∀ f ∈ (fragLoop max nal ts fuel o).getLast?, f.last = true) ∧
      ((fragLoop max nal ts fuel o).filter Fragment.last).map (fun f => (f.nal, f.ts)) =
        if o < nal.length then [(nal, ts)] else [] := by
  induction fuel with
  | zero =>
    intro o ho
    rw [if_neg (by omega)]
    exact ⟨nofun, .nil, nofun, rfl⟩
  | succ fuel ih =>
    intro o ho
    rw [fragLoop]
    by_cases hd : nal.drop o = []
    · rw [if_pos hd]
      rw [List.drop_eq_nil_iff] at hd
      rw [if_neg (by omega)]
      exact ⟨nofun, .nil, nofun, rfl⟩
    · rw [if_neg hd]
      rw [List.drop_eq_nil_iff] at hd
      have hsize : 0 < min (nal.length - o) max := by omega
      have hle : min (nal.length - o) max ≤ nal.length - o := Nat.min_le_left _ _
      simp only
      generalize min (nal.length - o) max = size at hsize hle
      obtain ⟨hhead, hchain, hlast, hfilter⟩ := ih (o := o + size) (by omega)
      have hnext : (fragLoop max nal ts fuel (o + size) = [] ∧ o + size = nal.length) ∨
          (fragLoop max nal ts fuel (o + size) ≠ [] ∧ o + size < nal.length) := by
        by_cases hl : o + size = nal.length
        · refine .inl ⟨?_, hl⟩
          cases fuel with
          | zero => rfl
          | succ fuel => rw [fragLoop, if_pos (List.drop_eq_nil_iff.mpr (by omega))]
        · refine .inr ⟨fun e => ?_, by omega⟩
          rw [e, if_pos (by omega)] at hfilter
          cases hfilter
      rw [if_pos (show o < nal.length by omega)]
      rcases hnext with ⟨he, hl⟩ | ⟨hne, hl⟩
      · have hlast' : (⟨nal, ts, o, size⟩ : Fragment).last = true := decide_eq_true hl
        rw [he]
        refine ⟨fun f hf => ?_, .singleton _, fun f hf => ?_, ?_⟩
        · cases hf
          rfl
        · cases hf
          exact hlast'
        · rw [List.filter_cons_of_pos hlast']
          rfl
      · have hlast' : ¬ (⟨nal, ts, o, size⟩ : Fragment).last = true := by
          rw [Fragment.last, decide_eq_true_eq]
          show ¬ o + size = nal.length
          omega
        refine ⟨fun f hf => ?_, List.isChain_cons.mpr ⟨fun g hg => ?_, hchain⟩, fun f hf => ?_, ?_⟩
        · cases hf
          rfl
        · have hmem : g ∈ fragLoop max nal ts fuel (o + size) := List.mem_of_mem_head? hg
          rw [Fragment.Follows, if_neg hlast']
          exact ⟨(fragLoop_ok hmax nal ts fuel g hmem).1, (fragLoop_ok hmax nal ts fuel g hmem).2.1, hhead g hg⟩
        · rw [List.getLast?_cons, Option.mem_some_iff, List.getLast?_eq_some_getLast hne, Option.getD_some] at hf
          refine hlast f ?_
          rw [List.getLast?_eq_some_getLast hne, hf]
          rfl
        · rw [List.filter_cons_of_neg hlast', hfilter, if_pos hl]

theorem fragments_ok {max : Nat} (hmax : 0 < max) {nals : List (List Byte × Nat)} {f : Fragment}
    (hf : f ∈ fragments max nals) : (f.nal, f.ts) ∈ nals ∧ f.Ok := by
  obtain ⟨x, hx, hf⟩ := List.mem_flatMap.mp hf
  obtain ⟨h₁, h₂, h₃⟩ := fragLoop_ok hmax x.1 x.2 _ f hf
  rw [h₁, h₂]
  exact ⟨hx, h₃⟩

/-- Each fragment is followed by the next, the first one begins a NAL unit and the last one ends one. -/
theorem fragments_chain {max : Nat} (hmax : 0 < max) (nals : List (List Byte × Nat)) :
    (∀ f ∈ (fragments max nals).head?, f.offset = 0) ∧ (fragments max nals).IsChain Fragment.Follows ∧
      ∀ f ∈ (fragments max nals).getLast?, f.last = true := by
  induction nals with
  | nil => exact ⟨nofun, .nil, nofun⟩
  | cons x nals ih =>
    obtain ⟨hhead, hchain, hlast⟩ := ih
    obtain ⟨hhead₁, hchain₁, hlast₁, -⟩ := fragLoop_chain hmax x.1 x.2 x.1.length (o := 0) (by omega)
    rw [fragments, List.flatMap_cons]
    show (∀ f ∈ (_ ++ fragments max nals).head?, _) ∧ List.IsChain _ (_ ++ fragments max nals) ∧
      ∀ f ∈ (_ ++ fragments max nals).getLast?, _
    generalize fragLoop max x.1 x.2 x.1.length 0 = fs at hhead₁ hchain₁ hlast₁
    refine ⟨fun f hf => ?_, hchain₁.append hchain fun f hf g hg => ?_, fun f hf => ?_⟩
    · rw [List.head?_append] at hf
      cases hfs : fs.head? with
      | none =>
        rw [hfs] at hf
        exact hhead f hf
      | some f' =>
        rw [hfs] at hf
        exact hhead₁ f (by rw [hfs]; exact hf)
    · rw [Fragment.Follows, if_pos (hlast₁ f hf)]
      exact hhead g hg
    · rw [List.getLast?_append] at hf
      cases hfs : (fragments max nals).getLast? with
      | none =>
        rw [hfs] at hf
        exact hlast₁ f hf
      | some f' =>
        rw [hfs] at hf
        exact hlast f (by rw [hfs]; exact hf)

theorem length_fragments_pos {max : Nat} (hmax : 0 < max) {z : List Byte × Nat} (hz : z.1 ≠ []) :
    0 < (fragments max [z]).length := by
  have h := (fragLoop_chain hmax z.1 z.2 z.1.length (o := 0) (Nat.le_add_left _ _)).2.2.2
  rw [if_pos (List.length_pos_iff.mpr hz)] at h
  rw [fragments, List.flatMap_cons, List.flatMap_nil, List.append_nil]
  refine List.length_pos_iff.mpr fun e => ?_
  rw [e] at h
  cases h

/-- The last packet of what has been sent so far. -/
theorem fragments_end {max : Nat} (hmax : 0 < max) {nals : List (List Byte × Nat)} {k : Nat}
    (hk : (fragments max nals).length = k + 1) (more : List Fragment) :
    ∃ f ∈ fragments max nals, (fragments max nals ++ more)[k]? = some f ∧ f.last = true := by
  have hlt : k < (fragments max nals).length := by omega
  refine ⟨(fragments max nals)[k], List.getElem_mem hlt, ?_, ?_⟩
  · rw [List.getElem?_append_left hlt, List.getElem?_eq_getElem hlt]
  · refine (fragments_chain hmax nals).2.2 _ ?_
    rw [List.getLast?_eq_getElem?, hk, Nat.add_sub_cancel, List.getElem?_eq_getElem hlt]
    rfl

/-- The fragment after another. -/
theorem fragments_follow {max : Nat} (hmax : 0 < max) {nals : List (List Byte × Nat)} {i : Nat} {f g : Fragment}
    (hf : (fragments max nals)[i]? = some f) (hg : (fragments max nals)[i + 1]? = some g) : f.Follows g := by
  obtain ⟨h₁, rfl⟩ := List.getElem?_eq_some_iff.mp hf
  obtain ⟨h₂, rfl⟩ := List.getElem?_eq_some_iff.mp hg
  exact (fragments_chain hmax nals).2.1.getElem i h₂

/-- Each NAL unit with something in it has one last fragment. -/
theorem fragments_last {max : Nat} (hmax : 0 < max) (nals : List (List Byte × Nat)) :
    (((fragments max nals).filter Fragment.last).map fun f => (f.nal, f.ts)).Sublist nals := by
  induction nals with
  | nil => exact .slnil
  | cons x nals ih =>
    rw [fragments, List.flatMap_cons, List.filter_append, List.map_append,
      (fragLoop_chain hmax x.1 x.2 x.1.length (Nat.le_add_left _ _)).2.2.2]
    split
    · exact ih.cons_cons x
    · exact ih.cons x

end XH.Proof.Live
