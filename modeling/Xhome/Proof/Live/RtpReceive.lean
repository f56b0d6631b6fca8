import Xhome.Proof.Live.RtpSend

/-!
# A video that comes in over a network

The network loses packets, sends them twice and changes their order, as long as
none is late by 2¹⁴ packets or early by 2¹⁵ (`Window`). Every NAL unit that is
handed on then is one that has been sent, whole (`nals_received`). When the
packets come in one directly after the other from some packet before the last one
of a NAL unit on, the next unit is handed on, whatever has been lost before
(`nal_recovered`).

The sequence number 0 also stands for a stream that has not begun. A packet with
this number has to be the last one of its NAL unit; what has been put together
is not thrown away otherwise.
-/

namespace XH.Proof.Live

open Impl.Live Impl.Live.InRtpStream Impl.Live.InboundRtp

/-! ## A packet is read -/

theorem indicator_bits : ∀ b : Byte, naluType ((b &&& 0xe0) ||| 28) = naluTypeFUA ∧
    ((((b &&& 0xe0) ||| 28) &&& 0xe0) ||| (((b &&& 0x1f) ||| 0x80) &&& 0x1f)) = b ∧
    ((b &&& 0x1f) ||| 0x80) >>> 7 ≠ 0 ∧ (((b &&& 0x1f) ||| 0x40) >>> 6) &&& 1 = 1 ∧
    ((b &&& 0x1f) >>> 6) &&& 1 ≠ 1 := by decide

theorem Fragment.Ok.payload_ne {f : Fragment} (hf : f.Ok) : f.payload ≠ [] := by
  have h₁ := hf.pos
  have h₂ := hf.le
  rw [Fragment.payload]
  split
  · intro e
    rw [e, List.length_nil] at h₂
    omega
  · exact List.cons_ne_nil _ _

/-- The header as it is read. -/
def headerOf (f : Fragment) (seq ssrc : Nat) : RtpHeader :=
  ⟨(0x80 * 256 + if f.last then 0xe1 else 0x61) * 2 ^ 16 + seq, f.ts % 2 ^ 32, ssrc % 2 ^ 32⟩

theorem headerOf_bits (f : Fragment) {seq : Nat} (hs : seq < 2 ^ 16) (ssrc : Nat) :
    (headerOf f seq ssrc).seq = seq ∧ (headerOf f seq ssrc).m = f.last ∧ (headerOf f seq ssrc).cc = 0 := by
  simp only [RtpHeader.seq, RtpHeader.m, RtpHeader.cc, headerOf]
  cases f.last with
  | true =>
    rw [if_pos rfl]
    refine ⟨by omega, ?_, by omega⟩
    rw [beq_iff_eq]
    omega
  | false =>
    rw [if_neg Bool.false_ne_true]
    refine ⟨by omega, ?_, by omega⟩
    rw [beq_eq_false_iff_ne]
    omega

/-- The parts of a packet. -/
theorem packet_parts (f : Fragment) {seq : Nat} (hs : seq < 2 ^ 16) (ssrc : Nat) :
    (f.packet seq ssrc).length = 12 + f.payload.length ∧ (f.packet seq ssrc).drop 12 = f.payload ∧
      (⟨beValue ((f.packet seq ssrc).take 4), beValue (((f.packet seq ssrc).drop 4).take 4),
        beValue (((f.packet seq ssrc).drop 8).take 4)⟩ : RtpHeader) = headerOf f seq ssrc := by
  have hb : (f.packet seq ssrc) =
      ([0x80, if f.last then 0xe1 else 0x61] ++ beBytes 2 seq) ++
        (beBytes 4 f.ts ++ (beBytes 4 ssrc ++ f.payload)) := by
    rw [Fragment.packet]
    simp only [List.append_assoc]
  have h₄ : (([0x80, if f.last then 0xe1 else 0x61] : List Byte) ++ beBytes 2 seq).length = 4 := by
    rw [List.length_append, length_beBytes]
    rfl
  refine ⟨?_, ?_, ?_⟩
  · rw [hb, List.length_append, h₄, List.length_append, List.length_append, length_beBytes, length_beBytes]
    omega
  · rw [hb, show 12 = 4 + (4 + 4) from rfl, ← List.drop_drop, List.drop_left' h₄, ← List.drop_drop,
      drop_beBytes_append, drop_beBytes_append]
  · have e₁ : beValue ((f.packet seq ssrc).take 4) = (headerOf f seq ssrc).flags := by
      rw [hb, List.take_left' h₄, beValue_append, length_beBytes, beValue_beBytes, headerOf,
        Nat.mod_eq_of_lt (show seq < 256 ^ 2 from hs)]
      cases f.last <;> rfl
    have e₂ : beValue (((f.packet seq ssrc).drop 4).take 4) = f.ts % 2 ^ 32 := by
      rw [hb, List.drop_left' h₄, List.take_left' (length_beBytes 4 _), beValue_beBytes]
      rfl
    have e₃ : beValue (((f.packet seq ssrc).drop 8).take 4) = ssrc % 2 ^ 32 := by
      have hd : (f.packet seq ssrc).drop 8 = ((f.packet seq ssrc).drop 4).drop 4 := by rw [List.drop_drop]
      rw [hd, hb, List.drop_left' h₄, drop_beBytes_append, List.take_left' (length_beBytes 4 _), beValue_beBytes]
      rfl
    rw [e₁, e₂, e₃]
    rfl

/-- A packet is too late, as far as the receiver can tell. -/
def TooLate (p : InboundRtp) (seq : Nat) : Prop := seq < p.lastSeq ∧ ¬ 0xffff / 4 < p.lastSeq - seq

theorem signalInputData_late {p : InboundRtp} {f : Fragment} {seq : Nat} (hs : seq < 2 ^ 16) (ssrc : Nat)
    (hl : TooLate p seq) : p.signalInputData (f.packet seq ssrc) = (p, []) := by
  obtain ⟨h₁, -, h₃⟩ := packet_parts f hs ssrc
  rw [signalInputData, if_neg (by omega)]
  simp only [h₃, (headerOf_bits f hs ssrc).1]
  exact if_pos hl

theorem signalInputData_taken {p : InboundRtp} {f : Fragment} {seq : Nat} (hf : f.Ok) (hs : seq < 2 ^ 16) (ssrc : Nat)
    (hl : ¬ TooLate p seq) :
    ∃ p', p.signalInputData (f.packet seq ssrc) = (p', (p.stream.feedVideoData f.payload (headerOf f seq ssrc)).2) ∧
      p'.lastSeq = seq ∧ p'.stream = (p.stream.feedVideoData f.payload (headerOf f seq ssrc)).1 := by
  obtain ⟨h₁, h₂, h₃⟩ := packet_parts f hs ssrc
  obtain ⟨hseq, -, hcc⟩ := headerOf_bits f hs ssrc
  have hne := List.length_pos_iff.mpr hf.payload_ne
  rw [signalInputData, if_neg (by omega)]
  simp only [h₃, hseq, hcc, Nat.zero_mul, Nat.add_zero, h₂]
  rw [if_neg (show ¬ (seq < p.lastSeq ∧ ¬ 0xffff / 4 < p.lastSeq - seq) from hl), if_neg (by omega)]
  exact ⟨_, rfl, rfl, rfl⟩

/-! ## A packet is fed -/

/-- What has been put together behind this fragment. -/
def gathered (f : Fragment) : List Byte := if f.last then [] else f.nal.take (f.offset + f.size)

theorem Fragment.Follows.gathered {f g : Fragment} (h : f.Follows g) : gathered f = g.nal.take g.offset := by
  rw [Fragment.Follows] at h
  rw [Live.gathered]
  split at h
  · rename_i hl
    rw [if_pos hl, h, List.take_zero]
  · rename_i hl
    rw [if_neg hl, h.1, h.2.2]

/-- A fragment behind what comes before it. -/
theorem feedNal_payload {s : InRtpStream} {f : Fragment} (hf : f.Ok) (ht : naluType (f.nal.getD 0 0) ≤ 23)
    (hs : s.currentNalu = f.nal.take f.offset) :
    s.feedNal f.payload = ({ s with currentNalu := gathered f }, if f.last then [f.nal] else []) := by
  have hpos := hf.pos
  have hle := hf.le
  obtain ⟨hty, hfirst, hstart, hend, hmid⟩ := indicator_bits (f.nal.getD 0 0)
  by_cases hw : f.size = f.nal.length
  · -- in one packet
    have ho : f.offset = 0 := by omega
    have hl : f.last = true := decide_eq_true (by omega)
    rw [ho, List.take_zero] at hs
    rw [Fragment.payload, if_pos hw, feedNal]
    simp only
    rw [if_pos ht, gathered, if_pos hl, if_pos hl, ← hs]
  · rw [Fragment.payload, if_neg hw, feedNal]
    have hty : naluType f.indicator = naluTypeFUA := hty
    have hfua : ¬ naluType f.indicator ≤ 23 := by
      rw [hty]
      decide
    by_cases ho : f.offset = 0
    · have hl : ¬ f.last = true := by
        rw [Fragment.last, decide_eq_true_eq]
        omega
      rw [ho, List.take_zero] at hs
      simp only [List.cons_append, List.nil_append, List.getD_cons_zero, List.getD_cons_succ, List.drop_succ_cons,
        List.drop_zero]
      rw [if_neg hfua, if_pos hty, if_pos hs, Fragment.fuHeader, if_pos ho, if_pos ho, if_neg hstart, if_neg hl,
        Fragment.indicator, hfirst, gathered, if_neg hl, Fragment.part, ho, List.drop_zero, Nat.zero_add]
      have hcons : f.nal.getD 0 0 :: (f.nal.take f.size).drop 1 = f.nal.take f.size := by
        obtain ⟨b, nal, he⟩ : ∃ b nal, f.nal = b :: nal := List.exists_cons_of_length_pos (by omega)
        obtain ⟨k, hk⟩ : ∃ k, f.size = k + 1 := ⟨f.size - 1, by omega⟩
        rw [he, hk]
        rfl
      rw [hcons]
    · have hne : f.nal.take f.offset ≠ [] := by
        intro e
        have := congrArg List.length e
        rw [List.length_take, List.length_nil] at this
        omega
      have hcat : f.nal.take f.offset ++ f.part = f.nal.take (f.offset + f.size) := by
        rw [Fragment.part, ← List.take_add]
      simp only [List.cons_append, List.nil_append, List.getD_cons_zero, List.getD_cons_succ, List.drop_succ_cons,
        List.drop_zero]
      rw [if_neg hfua, if_pos hty, if_neg (by rw [hs]; exact hne), if_neg ho, hs, hcat, Fragment.fuHeader, if_neg ho]
      cases hl : f.last with
      | true =>
        have hall : f.offset + f.size = f.nal.length := of_decide_eq_true hl
        rw [if_pos rfl, if_pos hend, if_pos rfl, gathered, if_pos hl, hall, List.take_length]
      | false =>
        rw [if_neg Bool.false_ne_true, if_neg hmid, if_neg Bool.false_ne_true, gathered, hl,
          if_neg Bool.false_ne_true]

/-- The stream waits for a packet that ends a NAL unit. -/
def Waiting (s : InRtpStream) : Prop := s.videoSequence = 0 ∧ s.currentNalu = []

/-- The stream has taken the packet `l` of the fragments and holds what is put together behind it. -/
structure Tracks (fs : List Fragment) (c l : Nat) (s : InRtpStream) : Prop where
  sequence : s.videoSequence = (c + l) % 2 ^ 16
  begun : s.videoSequence ≠ 0
  holds : ∃ f, fs[l]? = some f ∧ s.currentNalu = gathered f

/-- Fragments in the order they are sent, with the sequence numbers from `c` on. -/
structure Train (fs : List Fragment) (c : Nat) : Prop where
  ok : ∀ f ∈ fs, f.Ok
  follows : ∀ {i : Nat} {f g : Fragment}, fs[i]? = some f → fs[i + 1]? = some g → f.Follows g
  single : ∀ f ∈ fs, naluType (f.nal.getD 0 0) ≤ 23
  zero : ∀ {i : Nat} {f : Fragment}, fs[i]? = some f → (c + i) % 2 ^ 16 = 0 → f.last = true

/-- A NAL unit that is handed on at this fragment. -/
def WholeNal (f : Fragment) (x : List Byte × Nat) : Prop := f.last = true ∧ x.1 = f.nal ∧ x.2 % 2 ^ 32 = f.ts % 2 ^ 32

theorem gathered_last {f : Fragment} (hl : f.last = true) : gathered f = [] := if_pos hl

variable {fs : List Fragment} {c : Nat}

/-- The number 0 stands for a stream that waits. -/
theorem waiting_or_tracks (ht : Train fs c) {m : Nat} {f : Fragment} (hm : fs[m]? = some f) {s : InRtpStream}
    (hs : s.videoSequence = (c + m) % 2 ^ 16) (hn : s.currentNalu = gathered f) : Waiting s ∨ Tracks fs c m s := by
  by_cases h0 : (c + m) % 2 ^ 16 = 0
  · exact .inl ⟨hs.trans h0, hn.trans (gathered_last (ht.zero hm h0))⟩
  · exact .inr ⟨hs, fun h => h0 (hs.symm.trans h), f, hm, hn⟩

theorem feedVideoData_waiting {s : InRtpStream} (hs : Waiting s) (f : Fragment) {seq : Nat} (hseq : seq < 2 ^ 16)
    (ssrc : Nat) : s.feedVideoData f.payload (headerOf f seq ssrc) =
      (if f.last then { s with videoSequence := seq } else s, []) := by
  obtain ⟨h₁, h₂, -⟩ := headerOf_bits f hseq ssrc
  rw [feedVideoData, if_pos hs.1, h₁, h₂]
  split <;> rfl

theorem feedVideoData_missed {s : InRtpStream} (hs : s.videoSequence ≠ 0) (f : Fragment) {seq : Nat}
    (hseq : seq < 2 ^ 16) (hne : (s.videoSequence + 1) % 2 ^ 16 ≠ seq) (ssrc : Nat) :
    s.feedVideoData f.payload (headerOf f seq ssrc) = (s.reset, []) := by
  rw [feedVideoData, if_neg hs, (headerOf_bits f hseq ssrc).1, if_pos hne]

theorem computeRTP_eq (s : InRtpStream) (currentRtp : Nat) :
    ∃ s' t, s.computeRTP currentRtp = (s', t) ∧ s'.videoSequence = s.videoSequence ∧ s'.currentNalu = s.currentNalu ∧
      t % 2 ^ 32 = currentRtp % 2 ^ 32 :=
  ⟨_, _, rfl, rfl, rfl, by omega⟩

theorem feedVideoData_next {s : InRtpStream} (hs : s.videoSequence ≠ 0) {f : Fragment} (hf : f.Ok)
    (ht : naluType (f.nal.getD 0 0) ≤ 23) (hn : s.currentNalu = f.nal.take f.offset) (ssrc : Nat) :
    ∃ s' t, s.feedVideoData f.payload (headerOf f ((s.videoSequence + 1) % 2 ^ 16) ssrc) =
        (s', if f.last then [(f.nal, t)] else []) ∧
      s'.videoSequence = (s.videoSequence + 1) % 2 ^ 16 ∧ s'.currentNalu = gathered f ∧ t % 2 ^ 32 = f.ts % 2 ^ 32 := by
  have hseq : (s.videoSequence + 1) % 2 ^ 16 < 2 ^ 16 := Nat.mod_lt _ (by decide)
  obtain ⟨s₁, t, he, h₁, h₂, h₃⟩ := computeRTP_eq { s with videoSequence := (s.videoSequence + 1) % 2 ^ 16 }
    (headerOf f ((s.videoSequence + 1) % 2 ^ 16) ssrc).timestamp
  rw [feedVideoData, if_neg hs, (headerOf_bits f hseq ssrc).1, if_neg (not_not_intro rfl)]
  simp only [he, feedNal_payload hf ht (h₂.trans hn)]
  refine ⟨_, t, Prod.ext rfl ?_, h₁, rfl, h₃.trans (Nat.mod_mod _ _)⟩
  show List.map _ _ = _
  split <;> rfl

/-- The next packet is taken. -/
theorem feedVideoData_tracks (ht : Train fs c) {l : Nat} {f : Fragment} {s : InRtpStream} (hs : Tracks fs c l s)
    (hf : fs[l + 1]? = some f) (ssrc : Nat) :
    ∃ s' xs, s.feedVideoData f.payload (headerOf f ((c + (l + 1)) % 2 ^ 16) ssrc) = (s', xs) ∧
      s'.videoSequence = (c + (l + 1)) % 2 ^ 16 ∧ s'.currentNalu = gathered f ∧
      if f.last then ∃ x, xs = [x] ∧ WholeNal f x else xs = [] := by
  obtain ⟨hsequence, hbegun, g, hg, hn⟩ := hs
  have hmem : f ∈ fs := List.mem_of_getElem? hf
  have hseq : (c + (l + 1)) % 2 ^ 16 = (s.videoSequence + 1) % 2 ^ 16 := by
    rw [hsequence]
    omega
  obtain ⟨s', t, he, h₁, h₂, h₃⟩ := feedVideoData_next hbegun (ht.ok f hmem) (ht.single f hmem)
    (hn.trans (ht.follows hg hf).gathered) ssrc
  rw [hseq, he]
  refine ⟨s', _, rfl, h₁, h₂, ?_⟩
  cases hl : f.last with
  | true => exact ⟨_, rfl, hl, rfl, h₃⟩
  | false => rfl

/-- Whatever packet comes, a NAL unit that is handed on is whole, as long as
sequence numbers that are the same are of the same packet. -/
theorem feedVideoData_kept (ht : Train fs c) {l m : Nat} {f : Fragment} {s : InRtpStream} (hm : fs[m]? = some f)
    (hs : Waiting s ∨ Tracks fs c l s) (h₁ : m < l + 65535) (h₂ : l < m + 65535) (ssrc : Nat) :
    ∃ s' xs, s.feedVideoData f.payload (headerOf f ((c + m) % 2 ^ 16) ssrc) = (s', xs) ∧
      (Waiting s' ∨ Tracks fs c m s') ∧ (xs = [] ∨ ∃ x, xs = [x] ∧ WholeNal f x) := by
  have hseq : (c + m) % 2 ^ 16 < 2 ^ 16 := Nat.mod_lt _ (by decide)
  rcases hs with hs | hs
  · rw [feedVideoData_waiting hs f hseq]
    refine ⟨_, _, rfl, ?_, .inl rfl⟩
    split
    · rename_i hl
      exact waiting_or_tracks ht hm rfl (hs.2.trans (gathered_last hl).symm)
    · exact .inl hs
  · by_cases hnext : (s.videoSequence + 1) % 2 ^ 16 = (c + m) % 2 ^ 16
    · obtain rfl : m = l + 1 := by
        rw [hs.sequence] at hnext
        omega
      obtain ⟨s', xs, he, h₃, h₄, hxs⟩ := feedVideoData_tracks ht hs hm ssrc
      refine ⟨s', xs, he, waiting_or_tracks ht hm h₃ h₄, ?_⟩
      split at hxs
      · exact .inr hxs
      · exact .inl hxs
    · rw [feedVideoData_missed hs.begun f hseq hnext]
      exact ⟨_, _, rfl, .inl ⟨rfl, rfl⟩, .inl rfl⟩

/-- The receiver has taken the packet `l` last. -/
structure Took (fs : List Fragment) (c l : Nat) (p : InboundRtp) : Prop where
  lastSeq : p.lastSeq = (c + l) % 2 ^ 16
  stream : Waiting p.stream ∨ Tracks fs c l p.stream

/-- A packet that is not too late is taken. -/
theorem signalInputData_took (ht : Train fs c) {l m : Nat} {f : Fragment} {p : InboundRtp} (hm : fs[m]? = some f)
    (hl : ¬ TooLate p ((c + m) % 2 ^ 16)) (hs : Waiting p.stream ∨ Tracks fs c l p.stream) (h₁ : m < l + 65535)
    (h₂ : l < m + 65535) (ssrc : Nat) :
    ∃ p' xs, p.signalInputData (f.packet ((c + m) % 2 ^ 16) ssrc) = (p', xs) ∧ Took fs c m p' ∧
      (xs = [] ∨ ∃ x, xs = [x] ∧ WholeNal f x) := by
  have hseq : (c + m) % 2 ^ 16 < 2 ^ 16 := Nat.mod_lt _ (by decide)
  obtain ⟨p', he, h₃, h₄⟩ := signalInputData_taken (ht.ok f (List.mem_of_getElem? hm)) hseq ssrc hl
  obtain ⟨s', xs, hfeed, hs', hxs⟩ := feedVideoData_kept ht hm hs h₁ h₂ ssrc
  rw [hfeed] at he h₄
  refine ⟨p', xs, he, ⟨h₃, ?_⟩, hxs⟩
  rw [h₄]
  exact hs'

/-! ## What the network does -/

/-- The newest packet when these have come in too. -/
def newest (n : Option Nat) : List Nat → Option Nat
  | [] => n
  | m :: ms => newest (some (max (n.getD m) m)) ms

/-- Packets come in by these numbers, the newest so far being `n`: none is late by
2¹⁴ packets or early by 2¹⁵. -/
def Window (n : Option Nat) : List Nat → Prop
  | [] => True
  | m :: ms => (∀ k ∈ n, k < m + 2 ^ 14 ∧ m < k + 2 ^ 15) ∧ Window (some (max (n.getD m) m)) ms

/-- Datagrams come in one after the other. -/
def receiveAll (p : InboundRtp) : List (List Byte) → InboundRtp × List (List Byte × Nat)
  | [] => (p, [])
  | d :: ds =>
    let (p, xs) := p.signalInputData d
    let (p, more) := receiveAll p ds
    (p, xs ++ more)

/-- What the receiver knows when `n` is the newest packet that has come in. -/
def Knows (fs : List Fragment) (c : Nat) (p : InboundRtp) : (n : Option Nat) → Prop
  | none => p.lastSeq = 0 ∧ Waiting p.stream
  | some n => ∃ l, l ≤ n ∧ n < l + 2 ^ 14 ∧ Took fs c l p

theorem knows_new (fs : List Fragment) (c : Nat) : Knows fs c InboundRtp.new none := ⟨rfl, rfl, rfl⟩

/-- A packet that is newer than all the others is not too late. -/
theorem not_tooLate {p : InboundRtp} {l m : Nat} (hl : p.lastSeq = (c + l) % 2 ^ 16) (h₁ : l ≤ m)
    (h₂ : m < l + (2 ^ 15 + 2 ^ 14)) : ¬ TooLate p ((c + m) % 2 ^ 16) := by
  rw [TooLate, hl]
  omega

theorem not_tooLate_first {p : InboundRtp} (hl : p.lastSeq = 0) (seq : Nat) : ¬ TooLate p seq := by
  rw [TooLate, hl]
  omega

/-- A packet that is newer than all the others is taken. -/
theorem signalInputData_newest (ht : Train fs c) {n : Option Nat} {m : Nat} {f : Fragment} {p : InboundRtp}
    (hm : fs[m]? = some f) (hp : Knows fs c p n) (hn : ∀ k ∈ n, k ≤ m ∧ m < k + 2 ^ 15) (ssrc : Nat) :
    ∃ p' xs, p.signalInputData (f.packet ((c + m) % 2 ^ 16) ssrc) = (p', xs) ∧ Took fs c m p' ∧
      (xs = [] ∨ ∃ x, xs = [x] ∧ WholeNal f x) := by
  cases n with
  | none =>
    exact signalInputData_took ht (l := m) hm (not_tooLate_first hp.1 _) (.inl hp.2) (by omega) (by omega) ssrc
  | some n =>
    obtain ⟨l, h₁, h₂, hl⟩ := hp
    obtain ⟨h₃, h₄⟩ := hn n rfl
    exact signalInputData_took ht hm (not_tooLate hl.lastSeq (by omega) (by omega)) hl.stream (by omega) (by omega) ssrc

/-- A packet comes in. -/
theorem signalInputData_knows (ht : Train fs c) {n : Option Nat} {m : Nat} {f : Fragment} {p : InboundRtp}
    (hm : fs[m]? = some f) (hp : Knows fs c p n) (hn : ∀ k ∈ n, k < m + 2 ^ 14 ∧ m < k + 2 ^ 15) (ssrc : Nat) :
    ∃ p' xs, p.signalInputData (f.packet ((c + m) % 2 ^ 16) ssrc) = (p', xs) ∧
      Knows fs c p' (some (max (n.getD m) m)) ∧ (xs = [] ∨ ∃ x, xs = [x] ∧ WholeNal f x) := by
  by_cases hnew : ∀ k ∈ n, k ≤ m
  · obtain ⟨p', xs, he, hp', hxs⟩ := signalInputData_newest ht hm hp (fun k hk => ⟨hnew k hk, (hn k hk).2⟩) ssrc
    have hmax : max (n.getD m) m = m := by
      cases n with
      | none => exact Nat.max_self m
      | some n => exact Nat.max_eq_right (hnew n rfl)
    rw [hmax]
    exact ⟨p', xs, he, ⟨m, Nat.le_refl m, by omega, hp'⟩, hxs⟩
  · cases n with
    | none => exact absurd (fun k hk => absurd hk (Option.not_mem_none k)) hnew
    | some n =>
      have hlt : m < n := by
        by_contra hge
        exact hnew fun k hk => by
          cases hk
          omega
      obtain ⟨l, h₁, h₂, hl⟩ := hp
      obtain ⟨h₃, -⟩ := hn n rfl
      rw [Option.getD_some, Nat.max_eq_left (Nat.le_of_lt hlt)]
      by_cases hlate : TooLate p ((c + m) % 2 ^ 16)
      · rw [signalInputData_late (Nat.mod_lt _ (by decide)) ssrc hlate]
        exact ⟨p, [], rfl, ⟨l, h₁, h₂, hl⟩, .inl rfl⟩
      · obtain ⟨p', xs, he, hp', hxs⟩ := signalInputData_took ht hm hlate hl.stream (by omega) (by omega) ssrc
        exact ⟨p', xs, he, ⟨m, Nat.le_of_lt hlt, h₃, hp'⟩, hxs⟩

/-- The datagrams `ds` are the packets `ms` of the fragments. -/
def Arrive (fs : List Fragment) (c ssrc : Nat) (ms : List Nat) (ds : List (List Byte)) : Prop :=
  List.Forall₂ (fun m d => (packetsFrom ssrc c fs)[m]? = some d) ms ds

theorem packet_of_arrive {m ssrc : Nat} {d : List Byte} (h : (packetsFrom ssrc c fs)[m]? = some d) :
    ∃ f, fs[m]? = some f ∧ d = f.packet ((c + m) % 2 ^ 16) ssrc := by
  rw [packetsFrom_getElem?] at h
  obtain ⟨f, hf, rfl⟩ := Option.map_eq_some_iff.mp h
  exact ⟨f, hf, rfl⟩

theorem receiveAll_cons {p p' : InboundRtp} {d : List Byte} {xs : List (List Byte × Nat)}
    (he : p.signalInputData d = (p', xs)) (ds : List (List Byte)) :
    receiveAll p (d :: ds) = ((receiveAll p' ds).1, xs ++ (receiveAll p' ds).2) := by
  rw [receiveAll, he]

/-- Packets come in: what is handed on are NAL units at some of their last fragments. -/
theorem receiveAll_knows (ht : Train fs c) {ssrc : Nat} {ms : List Nat} {ds : List (List Byte)}
    (hd : Arrive fs c ssrc ms ds) :
    ∀ {n : Option Nat} {p : InboundRtp}, Knows fs c p n → Window n ms →
      Knows fs c (receiveAll p ds).1 (newest n ms) ∧ ∃ ks : List Nat, ks.Sublist ms ∧
        List.Forall₂ (fun k x => ∃ f, fs[k]? = some f ∧ WholeNal f x) ks (receiveAll p ds).2 := by
  induction hd with
  | nil =>
    intro n p hp _
    exact ⟨hp, [], .slnil, .nil⟩
  | @cons m d ms ds hmd _ ih =>
    intro n p hp hw
    rw [Window] at hw
    obtain ⟨hm, hw⟩ := hw
    obtain ⟨f, hf, hd⟩ := packet_of_arrive hmd
    obtain ⟨p', xs, he, hp', hxs⟩ := signalInputData_knows ht hf hp hm ssrc
    obtain ⟨hr, ks, hks, hall⟩ := ih hp' hw
    rw [hd, receiveAll_cons he, newest]
    refine ⟨hr, ?_⟩
    rcases hxs with rfl | ⟨x, rfl, hx⟩
    · exact ⟨ks, hks.cons m, hall⟩
    · exact ⟨m :: ks, hks.cons_cons m, .cons ⟨f, hf, hx⟩ hall⟩

theorem related_of_mem {α β : Type} {R : α → β → Prop} {xs : List α} {ys : List β} (h : List.Forall₂ R xs ys) {y : β}
    (hy : y ∈ ys) : ∃ x ∈ xs, R x y := by
  obtain ⟨i, hi, rfl⟩ := List.mem_iff_getElem.mp hy
  obtain ⟨hlen, hget⟩ := List.forall₂_iff_get.mp h
  exact ⟨_, List.getElem_mem (hlen ▸ hi), hget i (hlen ▸ hi) hi⟩

/-- What is picked at growing places is picked in order. -/
theorem sublist_of_places {α β : Type} {xs : List α} {q : α → Bool} {g : α → β} {ks : List Nat} {ys : List β}
    (h : List.Forall₂ (fun k y => ∃ x, xs[k]? = some x ∧ q x = true ∧ y = g x) ks ys) :
    ∀ {o : Nat}, (∀ k ∈ ks, o ≤ k) → ks.Pairwise (· < ·) → ys.Sublist (((xs.drop o).filter q).map g) := by
  induction h with
  | nil =>
    intro o _ _
    exact List.nil_sublist _
  | @cons k y ks ys hk _ ih =>
    intro o ho hlt
    obtain ⟨x, hx, hq, rfl⟩ := hk
    obtain ⟨h₁, h₂⟩ := List.pairwise_cons.mp hlt
    have hle : o ≤ k := ho k List.mem_cons_self
    have hdrop : (xs.drop o).drop (k - o) = x :: xs.drop (k + 1) := by
      obtain ⟨hlen, rfl⟩ := List.getElem?_eq_some_iff.mp hx
      rw [List.drop_drop, Nat.add_sub_cancel' hle, List.drop_eq_getElem_cons hlen]
    have hys := ih h₁ h₂
    calc (g x :: ys).Sublist (g x :: ((xs.drop (k + 1)).filter q).map g) := hys.cons_cons _
      _ = (((xs.drop o).drop (k - o)).filter q).map g := by rw [hdrop, List.filter_cons_of_pos hq, List.map_cons]
      List.Sublist _ _ := ((List.drop_sublist _ _).filter q).map g

/-! ## Packets that come in in order -/

/-- The last packet taken is the newest one. -/
def UpToDate (fs : List Fragment) (c : Nat) (p : InboundRtp) : (n : Option Nat) → Prop
  | none => p.lastSeq = 0 ∧ Waiting p.stream
  | some n => Took fs c n p

theorem upToDate_new (fs : List Fragment) (c : Nat) : UpToDate fs c InboundRtp.new none := ⟨rfl, rfl, rfl⟩

theorem UpToDate.knows {n : Option Nat} {p : InboundRtp} (h : UpToDate fs c p n) : Knows fs c p n := by
  cases n with
  | none => exact h
  | some n => exact ⟨n, Nat.le_refl n, by omega, h⟩

/-- A packet that comes in twice hands nothing on the second time. -/
theorem signalInputData_again (ht : Train fs c) {m : Nat} {f : Fragment} {p : InboundRtp} (hm : fs[m]? = some f)
    (hp : Took fs c m p) (ssrc : Nat) :
    ∃ p', p.signalInputData (f.packet ((c + m) % 2 ^ 16) ssrc) = (p', []) ∧ Took fs c m p' := by
  have hseq : (c + m) % 2 ^ 16 < 2 ^ 16 := Nat.mod_lt _ (by decide)
  have hl : ¬ TooLate p ((c + m) % 2 ^ 16) := not_tooLate hp.lastSeq (Nat.le_refl m) (by omega)
  obtain ⟨p', xs, he, hp', -⟩ := signalInputData_took ht hm hl hp.stream (by omega) (by omega) ssrc
  obtain ⟨p'', he', -, -⟩ := signalInputData_taken (ht.ok f (List.mem_of_getElem? hm)) hseq ssrc hl
  have hnil : (p.stream.feedVideoData f.payload (headerOf f ((c + m) % 2 ^ 16) ssrc)).2 = [] := by
    rcases hp.stream with hw | htracks
    · rw [feedVideoData_waiting hw f hseq]
    · have hne : (p.stream.videoSequence + 1) % 2 ^ 16 ≠ (c + m) % 2 ^ 16 := by
        rw [htracks.sequence]
        omega
      rw [feedVideoData_missed htracks.begun f hseq hne]
  obtain ⟨-, rfl⟩ := Prod.mk.inj (he.symm.trans he')
  rw [hnil] at he
  exact ⟨p', he, hp'⟩

/-- A packet comes in that is not older than the others: what it hands on, it hands
on the first time. -/
theorem signalInputData_inOrder (ht : Train fs c) {n : Option Nat} {m : Nat} {f : Fragment} {p : InboundRtp}
    (hm : fs[m]? = some f) (hp : UpToDate fs c p n) (hn : ∀ k ∈ n, k ≤ m ∧ m < k + 2 ^ 15) (ssrc : Nat) :
    ∃ p' xs, p.signalInputData (f.packet ((c + m) % 2 ^ 16) ssrc) = (p', xs) ∧ UpToDate fs c p' (some m) ∧
      (xs = [] ∨ (∀ k ∈ n, k < m) ∧ ∃ x, xs = [x] ∧ WholeNal f x) := by
  by_cases hagain : n = some m
  · subst hagain
    obtain ⟨p', he, hp'⟩ := signalInputData_again ht hm hp ssrc
    exact ⟨p', [], he, hp', .inl rfl⟩
  · obtain ⟨p', xs, he, hp', hxs⟩ := signalInputData_newest ht hm hp.knows hn ssrc
    refine ⟨p', xs, he, hp', hxs.imp_right fun hx => ⟨fun k hk => ?_, hx⟩⟩
    exact Nat.lt_of_le_of_ne (hn k hk).1 fun e => hagain (e ▸ hk)

/-- Packets come in in order: the NAL units are handed on in order. -/
theorem receiveAll_inOrder (ht : Train fs c) {ssrc : Nat} {ms : List Nat} {ds : List (List Byte)}
    (hd : Arrive fs c ssrc ms ds) :
    ∀ {n : Option Nat} {p : InboundRtp}, UpToDate fs c p n → Window n ms → (∀ k ∈ n, ∀ m ∈ ms, k ≤ m) →
      ms.Pairwise (· ≤ ·) → ∃ ks : List Nat, ks.Pairwise (· < ·) ∧ (∀ k ∈ n, ∀ m ∈ ks, k < m) ∧
        List.Forall₂ (fun k x => ∃ f, fs[k]? = some f ∧ WholeNal f x) ks (receiveAll p ds).2 := by
  induction hd with
  | nil =>
    intro n p _ _ _ _
    exact ⟨[], .nil, fun _ _ _ hm => absurd hm List.not_mem_nil, .nil⟩
  | @cons m d ms ds hmd _ ih =>
    intro n p hp hw hle hsorted
    rw [Window] at hw
    obtain ⟨hwin, hw⟩ := hw
    obtain ⟨f, hf, hd⟩ := packet_of_arrive hmd
    have hnew : ∀ k ∈ n, k ≤ m := fun k hk => hle k hk m List.mem_cons_self
    have hmax : max (n.getD m) m = m := by
      cases n with
      | none => exact Nat.max_self m
      | some n => exact Nat.max_eq_right (hnew n rfl)
    rw [hmax] at hw
    obtain ⟨p', xs, he, hp', hxs⟩ := signalInputData_inOrder ht hf hp (fun k hk => ⟨hnew k hk, (hwin k hk).2⟩) ssrc
    obtain ⟨hm, hsorted⟩ := List.pairwise_cons.mp hsorted
    obtain ⟨ks, hks, hlt, hall⟩ := ih hp' hw (fun k hk m' hm' => by
      obtain rfl := Option.some.inj hk
      exact hm m' hm') hsorted
    have hbehind : ∀ k ∈ ks, m < k := hlt m rfl
    rw [hd, receiveAll_cons he]
    rcases hxs with rfl | ⟨hfirst, x, rfl, hx⟩
    · exact ⟨ks, hks, fun k hk m' hm' => Nat.lt_of_le_of_lt (hnew k hk) (hbehind m' hm'), hall⟩
    · refine ⟨m :: ks, List.pairwise_cons.mpr ⟨hbehind, hks⟩, fun k hk m' hm' => ?_, .cons ⟨f, hf, hx⟩ hall⟩
      rcases List.mem_cons.mp hm' with rfl | hm'
      · exact hfirst k hk
      · exact Nat.lt_trans (hfirst k hk) (hbehind m' hm')

/-! ## Packets that come in one directly after the other -/

theorem receiveAll_append (ds ds' : List (List Byte)) :
    ∀ p : InboundRtp, receiveAll p (ds ++ ds') = ((receiveAll (receiveAll p ds).1 ds').1,
      (receiveAll p ds).2 ++ (receiveAll (receiveAll p ds).1 ds').2) := by
  induction ds with
  | nil =>
    intro p
    rfl
  | cons d ds ih =>
    intro p
    obtain ⟨p', xs, he⟩ : ∃ p' xs, p.signalInputData d = (p', xs) := ⟨_, _, rfl⟩
    rw [List.cons_append, receiveAll_cons he, receiveAll_cons he, ih, List.append_assoc]

/-- The receiver has not lost the packet it has taken last. -/
def Holding (fs : List Fragment) (c l : Nat) (p : InboundRtp) : Prop :=
  p.lastSeq = (c + l) % 2 ^ 16 ∧ Tracks fs c l p.stream

theorem Holding.took {l : Nat} {p : InboundRtp} (h : Holding fs c l p) : Took fs c l p := ⟨h.1, .inr h.2⟩

/-- The next packet comes in. The last one of a NAL unit ends the waiting. -/
theorem signalInputData_next (ht : Train fs c) {l : Nat} {f : Fragment} {p : InboundRtp} (hf : fs[l + 1]? = some f)
    (h0 : (c + (l + 1)) % 2 ^ 16 ≠ 0) (hp : Took fs c l p) (ssrc : Nat) :
    ∃ p' xs, p.signalInputData (f.packet ((c + (l + 1)) % 2 ^ 16) ssrc) = (p', xs) ∧ Took fs c (l + 1) p' ∧
      (f.last = true → Holding fs c (l + 1) p') ∧
      (Holding fs c l p → Holding fs c (l + 1) p' ∧ (f.last = true → ∃ x ∈ xs, WholeNal f x)) := by
  have hseq : (c + (l + 1)) % 2 ^ 16 < 2 ^ 16 := Nat.mod_lt _ (by decide)
  have hl : ¬ TooLate p ((c + (l + 1)) % 2 ^ 16) := not_tooLate hp.lastSeq (by omega) (by omega)
  obtain ⟨p', he, h₁, h₂⟩ := signalInputData_taken (ht.ok f (List.mem_of_getElem? hf)) hseq ssrc hl
  by_cases hin : Tracks fs c l p.stream
  · obtain ⟨s', xs, hfeed, h₃, h₄, hxs⟩ := feedVideoData_tracks ht hin hf ssrc
    rw [hfeed] at he h₂
    have hholding : Holding fs c (l + 1) p' := by
      refine ⟨h₁, ?_⟩
      rw [h₂]
      exact ⟨h₃, h₃ ▸ h0, f, hf, h₄⟩
    refine ⟨p', xs, he, hholding.took, fun _ => hholding, fun _ => ⟨hholding, fun hlast => ?_⟩⟩
    rw [if_pos hlast] at hxs
    obtain ⟨x, rfl, hx⟩ := hxs
    exact ⟨x, List.mem_singleton_self x, hx⟩
  · have hw : Waiting p.stream := hp.stream.resolve_right hin
    rw [feedVideoData_waiting hw f hseq] at he h₂
    have hholding : f.last = true → Holding fs c (l + 1) p' := by
      intro hlast
      refine ⟨h₁, ?_⟩
      rw [h₂, if_pos hlast]
      exact ⟨rfl, h0, f, hf, hw.2.trans (gathered_last hlast).symm⟩
    refine ⟨p', [], he, ?_, hholding, fun hk => absurd hk.2 hin⟩
    by_cases hlast : f.last = true
    · exact (hholding hlast).took
    · refine ⟨h₁, .inl ?_⟩
      rw [h₂, if_neg hlast]
      exact hw

/-- The next packets come in, the last of them being the last one of a NAL unit. -/
theorem receiveAll_next (ht : Train fs c) {ssrc k : Nat} :
    ∀ {l : Nat} {p : InboundRtp} {ds : List (List Byte)} {f : Fragment}, fs[l + (k + 1)]? = some f → f.last = true →
      (∀ i, l < i → i ≤ l + (k + 1) → (c + i) % 2 ^ 16 ≠ 0) → Arrive fs c ssrc (List.range' (l + 1) (k + 1)) ds →
      Took fs c l p → Holding fs c (l + (k + 1)) (receiveAll p ds).1 ∧
        (Holding fs c l p → ∃ x ∈ (receiveAll p ds).2, WholeNal f x) := by
  induction k with
  | zero =>
    intro l p ds f hf hlast h0 hd hp
    obtain ⟨d, ds, hm, hnil, rfl⟩ := List.forall₂_cons_left_iff.mp hd
    obtain rfl := List.forall₂_nil_left_iff.mp hnil
    obtain ⟨g, hg, rfl⟩ := packet_of_arrive hm
    obtain rfl : f = g := Option.some.inj (hf.symm.trans hg)
    obtain ⟨p', xs, he, -, hholding, hwhole⟩ := signalInputData_next ht hf (h0 _ (by omega) (by omega)) hp ssrc
    rw [receiveAll_cons he, receiveAll]
    refine ⟨hholding hlast, fun hk => ?_⟩
    rw [List.append_nil]
    exact (hwhole hk).2 hlast
  | succ k ih =>
    intro l p ds f hf hlast h0 hd hp
    rw [List.range'_succ] at hd
    obtain ⟨d, ds, hm, hrest, rfl⟩ := List.forall₂_cons_left_iff.mp hd
    obtain ⟨g, hg, rfl⟩ := packet_of_arrive hm
    obtain ⟨p', xs, he, hp', -, hwhole⟩ := signalInputData_next ht hg (h0 _ (by omega) (by omega)) hp ssrc
    have hplace : l + 1 + (k + 1) = l + (k + 1 + 1) := by omega
    rw [← hplace] at hf h0 ⊢
    obtain ⟨h₁, h₂⟩ := ih hf hlast (fun i hi hi' => h0 i (by omega) hi') hrest hp'
    rw [receiveAll_cons he]
    refine ⟨h₁, fun hk => ?_⟩
    obtain ⟨x, hx, hw⟩ := h₂ (hwhole hk).1
    exact ⟨x, List.mem_append_right _ hx, hw⟩

theorem newest_lt {a : Nat} {ms : List Nat} :
    ∀ {n : Option Nat}, (∀ k ∈ n, k < a) → (∀ m ∈ ms, m < a) → ∀ k ∈ newest n ms, k < a := by
  induction ms with
  | nil =>
    intro n hn _
    exact hn
  | cons m ms ih =>
    intro n hn hms
    refine ih (fun k hk => ?_) fun m' hm' => hms m' (List.mem_cons_of_mem m hm')
    have hm : m < a := hms m List.mem_cons_self
    obtain rfl : max (n.getD m) m = k := Option.some.inj hk
    cases n with
    | none => exact max_lt hm hm
    | some n => exact max_lt (hn n rfl) hm

theorem window_append_iff {ms ms' : List Nat} :
    ∀ {n : Option Nat}, Window n (ms ++ ms') ↔ Window n ms ∧ Window (newest n ms) ms' := by
  induction ms with
  | nil =>
    intro n
    exact (and_iff_right trivial).symm
  | cons m ms ih =>
    intro n
    rw [List.cons_append, Window, Window, newest, ih, and_assoc]

theorem arrive_append {ssrc : Nat} {ms ms' : List Nat} :
    ∀ {ds : List (List Byte)}, Arrive fs c ssrc (ms ++ ms') ds →
      ∃ ds₁ ds₂, ds = ds₁ ++ ds₂ ∧ Arrive fs c ssrc ms ds₁ ∧ Arrive fs c ssrc ms' ds₂ := by
  induction ms with
  | nil =>
    intro ds hd
    exact ⟨[], ds, rfl, .nil, hd⟩
  | cons m ms ih =>
    intro ds hd
    obtain ⟨d, ds, hm, hrest, rfl⟩ := List.forall₂_cons_left_iff.mp hd
    obtain ⟨ds₁, ds₂, rfl, h₁, h₂⟩ := ih hrest
    exact ⟨d :: ds₁, ds₂, rfl, .cons hm h₁, h₂⟩

/-- From the packet `a` on none is missing. The first one may be taken for one behind
a gap, and one that ends a NAL unit, `f`, ends the waiting. -/
theorem receiveAll_recovered (ht : Train fs c) {ssrc a j q : Nat} {ms : List Nat} {ds : List (List Byte)}
    {f g : Fragment} (hf : fs[a + (j + 1)]? = some f) (hfl : f.last = true)
    (hg : fs[a + (j + 1) + (q + 1)]? = some g) (hgl : g.last = true)
    (h0 : ∀ i, a ≤ i → i ≤ a + (j + 1) + (q + 1) → (c + i) % 2 ^ 16 ≠ 0) (hms : ∀ m ∈ ms, m < a)
    (hw : Window none (ms ++ List.range' a (j + 1 + (q + 1) + 1)))
    (hd : Arrive fs c ssrc (ms ++ List.range' a (j + 1 + (q + 1) + 1)) ds) :
    ∃ x ∈ (receiveAll InboundRtp.new ds).2, WholeNal g x := by
  rw [List.range'_succ, ← List.range'_append_1] at hd hw
  obtain ⟨ds₁, ds, rfl, hd₁, hd⟩ := arrive_append hd
  obtain ⟨d, ds, hm, hrest, rfl⟩ := List.forall₂_cons_left_iff.mp hd
  obtain ⟨ds₂, ds₃, rfl, hd₂, hd₃⟩ := arrive_append hrest
  obtain ⟨hw₁, hw₂⟩ := window_append_iff.mp hw
  rw [Window] at hw₂
  obtain ⟨hr, -⟩ := receiveAll_knows ht hd₁ (knows_new fs c) hw₁
  obtain ⟨e, he, rfl⟩ := packet_of_arrive hm
  have hold : ∀ k ∈ newest none ms, k < a := newest_lt (fun k hk => absurd hk (Option.not_mem_none k)) hms
  obtain ⟨p₁, xs, hfirst, hp₁, -⟩ := signalInputData_newest ht he hr
    (fun k hk => ⟨Nat.le_of_lt (hold k hk), (hw₂.1 k hk).2⟩) ssrc
  obtain ⟨hp₂, -⟩ := receiveAll_next ht hf hfl (fun i hi hi' => h0 i (by omega) (by omega)) hd₂ hp₁
  have hplace : a + 1 + (j + 1) = a + (j + 1) + 1 := by omega
  rw [hplace] at hd₃
  obtain ⟨x, hx, hwhole⟩ := (receiveAll_next ht hg hgl (fun i hi hi' => h0 i (by omega) hi') hd₃ hp₂.took).2 hp₂
  rw [receiveAll_append, receiveAll_cons hfirst, receiveAll_append]
  exact ⟨x, List.mem_append_right _ (List.mem_append_right _ (List.mem_append_right _ hx)), hwhole⟩

/-! ## From one end to the other -/

/-- What the sender is like and what it sends. -/
structure Sendable (s : OutRtpStream) (nals : List (List Byte × Nat)) : Prop where
  size : 0 < s.maxRTPPacketSize
  counter : s.videoCounter < 2 ^ 16
  /-- The types above 23 are those of packets. -/
  single : ∀ x ∈ nals, naluType (x.1.getD 0 0) ≤ 23
  /-- A packet with the sequence number 0 has the marker of a last one. -/
  zero : ∀ i d, (sendNals s nals).2[i]? = some d → (s.videoCounter + i) % 2 ^ 16 = 0 → d.getD 1 0 = 0xe1

theorem Sendable.packets {s : OutRtpStream} {nals : List (List Byte × Nat)} (hs : Sendable s nals) :
    (sendNals s nals).2 = packetsFrom s.videoSsrc s.videoCounter (fragments s.maxRTPPacketSize nals) := by
  obtain ⟨s', he, -, -⟩ := sendNals_eq nals rfl (Nat.mod_eq_of_lt hs.counter).symm
  rw [he]

theorem Sendable.train {s : OutRtpStream} {nals : List (List Byte × Nat)} (hs : Sendable s nals) :
    Train (fragments s.maxRTPPacketSize nals) s.videoCounter where
  ok f hf := (fragments_ok hs.size hf).2
  follows hf hg := fragments_follow hs.size hf hg
  single f hf := hs.single _ (fragments_ok hs.size hf).1
  zero {i f} hf h0 := by
    have hd := hs.zero i (f.packet ((s.videoCounter + i) % 2 ^ 16) s.videoSsrc)
      (by rw [hs.packets, packetsFrom_getElem?, hf]; rfl) h0
    have hb : (if f.last then (0xe1 : Byte) else 0x61) = 0xe1 := hd
    split at hb
    · assumption
    · exact absurd hb (by decide)

/-- What is handed on has been sent, whole and with its time up to turns of the
32 bits; packets that come in in order, some of them twice, give NAL units in order,
none of them twice. -/
theorem nals_received {s : OutRtpStream} {nals : List (List Byte × Nat)} (hs : Sendable s nals) {ms : List Nat}
    {ds : List (List Byte)} (hd : List.Forall₂ (fun m d => (sendNals s nals).2[m]? = some d) ms ds)
    (hw : Window none ms) :
    (∀ x ∈ (receiveAll InboundRtp.new ds).2, ∃ y ∈ nals, x.1 = y.1 ∧ x.2 % 2 ^ 32 = y.2 % 2 ^ 32) ∧
      (ms.Pairwise (· ≤ ·) → ((receiveAll InboundRtp.new ds).2.map fun x => (x.1, x.2 % 2 ^ 32)).Sublist
        (nals.map fun y => (y.1, y.2 % 2 ^ 32))) := by
  rw [hs.packets] at hd
  refine ⟨fun x hx => ?_, fun hsorted => ?_⟩
  · obtain ⟨-, ks, -, hall⟩ := receiveAll_knows hs.train hd (knows_new _ _) hw
    obtain ⟨k, -, f, hf, -, h₁, h₂⟩ := related_of_mem hall hx
    exact ⟨(f.nal, f.ts), (fragments_ok hs.size (List.mem_of_getElem? hf)).1, h₁, h₂⟩
  · obtain ⟨ks, hks, -, hall⟩ := receiveAll_inOrder hs.train hd (upToDate_new _ _) hw
      (fun k hk => absurd hk (Option.not_mem_none k)) hsorted
    have hplaces : List.Forall₂ (fun k (y : List Byte × Nat) => ∃ f, (fragments s.maxRTPPacketSize nals)[k]? = some f ∧
        f.last = true ∧ y = (f.nal, f.ts % 2 ^ 32)) ks
        ((receiveAll InboundRtp.new ds).2.map fun x => (x.1, x.2 % 2 ^ 32)) := by
      rw [List.forall₂_map_right_iff]
      refine hall.imp fun k x hx => ?_
      obtain ⟨f, hf, hl, h₁, h₂⟩ := hx
      exact ⟨f, hf, hl, Prod.ext h₁ h₂⟩
    have hsub := sublist_of_places hplaces (fun k _ => Nat.zero_le k) hks
    have hnals := (fragments_last hs.size nals).map fun y => (y.1, y.2 % 2 ^ 32)
    rw [List.map_map] at hnals
    exact hsub.trans hnals

/-- The sequence numbers come to 0 with the fourth packet. -/
def turningSender : OutRtpStream := ⟨2, 7, 65533, 0, 0, []⟩

def turningNals : List (List Byte × Nat) :=
  [([0x65, 1, 2], 0), ([0x41, 9], 90), ([0x41, 5], 180), ([0x41, 3, 4], 270), ([0x41, 7], 360)]

/-- The datagrams that come in by these numbers. -/
def turningArrived (ms : List Nat) : List (List Byte) :=
  ms.map fun m => (sendNals turningSender turningNals).2.getD m []

theorem turning_length : (sendNals turningSender turningNals).2.length = 7 := by decide +kernel

theorem turning_arrive {ms : List Nat} (hms : ∀ m ∈ ms, m < 7) :
    List.Forall₂ (fun m d => (sendNals turningSender turningNals).2[m]? = some d) ms (turningArrived ms) := by
  refine List.forall₂_map_right_iff.mpr (List.forall₂_same.mpr fun m hm => ?_)
  have hlt : m < (sendNals turningSender turningNals).2.length := by
    rw [turning_length]
    exact hms m hm
  rw [List.getD_eq_getElem?_getD, List.getElem?_eq_getElem hlt, Option.getD_some]

theorem turning_sendable : Sendable turningSender turningNals where
  size := by decide
  counter := by decide
  single := by decide
  zero i d hd h0 := by
    obtain ⟨hi, -⟩ := List.getElem?_eq_some_iff.mp hd
    rw [turning_length] at hi
    obtain rfl : i = 3 := by
      have h0 : (65533 + i) % 2 ^ 16 = 0 := h0
      omega
    have hbyte : (sendNals turningSender turningNals).2[3]?.map (fun d => d.getD 1 0) = some 0xe1 := by decide +kernel
    rw [hd] at hbyte
    exact Option.some.inj hbyte

theorem nals_received_turning :
    Window none [1, 2, 2, 3, 5, 6] ∧
      (receiveAll InboundRtp.new (turningArrived [1, 2, 2, 3, 5, 6])).2 =
        [([0x41, 9], 90), ([0x41, 7], 360)] ∧
      ((receiveAll InboundRtp.new (turningArrived [1, 2, 2, 3, 5, 6])).2.map fun x => (x.1, x.2 % 2 ^ 32)).Sublist
        (turningNals.map fun y => (y.1, y.2 % 2 ^ 32)) := by
  have hw : Window none [1, 2, 2, 3, 5, 6] := by simp [Window]
  exact ⟨hw, by decide +kernel, (nals_received turning_sendable (turning_arrive (by decide)) hw).2 (by decide)⟩

-- the packet 0 begins a unit here: what is put together of it stays in front of the next one
example : (receiveAll InboundRtp.new (sendNals ⟨2, 7, 65535, 0, 0, []⟩
    [([0x41, 1], 0), ([0x65, 1, 2], 90), ([0x41, 3, 4], 180)]).2).2 = [([0x65, 1, 3, 4], 180)] := by decide +kernel

theorem length_sendNals {s : OutRtpStream} (hc : s.videoCounter < 2 ^ 16) (nals : List (List Byte × Nat)) :
    (sendNals s nals).2.length = (fragments s.maxRTPPacketSize nals).length := by
  obtain ⟨s', he, -, -⟩ := sendNals_eq nals rfl (Nat.mod_eq_of_lt hc).symm
  rw [he, length_packetsFrom]

/-- When the packets come in one directly after the other from some packet before
the last one of a NAL unit on, the next unit is handed on, whatever has come in
and whatever has been lost before. -/
theorem nal_recovered {s : OutRtpStream} {before after : List (List Byte × Nat)} {y z : List Byte × Nat}
    (hs : Sendable s (before ++ y :: z :: after)) (hz : z.1 ≠ []) {a b : Nat}
    (ha : a + 1 < (sendNals s (before ++ [y])).2.length) (hb : b = (sendNals s (before ++ [y, z])).2.length)
    (h0 : ∀ i, a ≤ i → i < b → (s.videoCounter + i) % 2 ^ 16 ≠ 0) {ms : List Nat} {ds : List (List Byte)}
    (hms : ∀ m ∈ ms, m < a) (hw : Window none (ms ++ List.range' a (b - a)))
    (hd : List.Forall₂ (fun m d => (sendNals s (before ++ y :: z :: after)).2[m]? = some d)
      (ms ++ List.range' a (b - a)) ds) :
    ∃ x ∈ (receiveAll InboundRtp.new ds).2, x.1 = z.1 ∧ x.2 % 2 ^ 32 = z.2 % 2 ^ 32 := by
  have hmax := hs.size
  rw [length_sendNals hs.counter] at ha hb
  rw [hs.packets] at hd
  have hsplit : fragments s.maxRTPPacketSize (before ++ y :: z :: after) =
      fragments s.maxRTPPacketSize (before ++ [y]) ++
        (fragments s.maxRTPPacketSize [z] ++ fragments s.maxRTPPacketSize after) := by
    rw [fragments, fragments, fragments, fragments, ← List.flatMap_append, ← List.flatMap_append, List.append_assoc]
    rfl
  have hlen : (fragments s.maxRTPPacketSize (before ++ [y, z])).length =
      (fragments s.maxRTPPacketSize (before ++ [y])).length + (fragments s.maxRTPPacketSize [z]).length := by
    rw [fragments, fragments, fragments, ← List.length_append, ← List.flatMap_append, List.append_assoc]
    rfl
  have hpos := length_fragments_pos hmax hz
  obtain ⟨j, hj⟩ : ∃ j, (fragments s.maxRTPPacketSize (before ++ [y])).length = a + (j + 1) + 1 :=
    ⟨(fragments s.maxRTPPacketSize (before ++ [y])).length - a - 2, by omega⟩
  obtain ⟨q, hq⟩ : ∃ q, (fragments s.maxRTPPacketSize [z]).length = q + 1 :=
    ⟨(fragments s.maxRTPPacketSize [z]).length - 1, by omega⟩
  obtain ⟨f, -, hf, hfl⟩ := fragments_end hmax hj
    (fragments s.maxRTPPacketSize [z] ++ fragments s.maxRTPPacketSize after)
  obtain ⟨g, hmem, hg, hgl⟩ := fragments_end hmax hq (fragments s.maxRTPPacketSize after)
  rw [← hsplit] at hf
  have hg' : (fragments s.maxRTPPacketSize (before ++ y :: z :: after))[a + (j + 1) + (q + 1)]? = some g := by
    rw [hsplit, List.getElem?_append_right (by omega), hj, ← hg]
    congr 1
    omega
  have hrange : b - a = j + 1 + (q + 1) + 1 := by omega
  rw [hrange] at hw hd
  obtain ⟨x, hx, -, h₁, h₂⟩ := receiveAll_recovered hs.train hf hfl hg' hgl
    (fun i hi hi' => h0 i hi (by omega)) hms hw hd
  have hz' : (g.nal, g.ts) = z := List.mem_singleton.mp (fragments_ok hmax hmem).1
  exact ⟨x, hx, h₁.trans (congrArg Prod.fst hz'), h₂.trans (congrArg (Prod.snd · % 2 ^ 32) hz')⟩

theorem nal_recovered_turning :
    ∃ x ∈ (receiveAll InboundRtp.new (turningArrived [1, 0, 2, 4, 5, 6])).2,
      x.1 = [0x41, 7] ∧ x.2 % 2 ^ 32 = 360 % 2 ^ 32 := by
  refine @nal_recovered turningSender (turningNals.take 3) [] ([0x41, 3, 4], 270) ([0x41, 7], 360) turning_sendable
    (by decide) 4 7 (by decide +kernel) (by decide +kernel) ?_ [1, 0, 2] _ (by decide) (by simp [Window, List.range'])
    (turning_arrive (by decide))
  intro i h₁ h₂
  show (65533 + i) % 2 ^ 16 ≠ 0
  omega

end XH.Proof.Live
