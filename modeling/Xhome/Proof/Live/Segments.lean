import Xhome.Impl.Live.Protocol
import Xhome.Proof.Live.Header

/-!
# An RTMP connection does not depend on how its bytes arrive

`ProcessBytes` runs whenever bytes have arrived, and a turn of its loop may wait
in the middle of a chunk: behind its channel, or behind a header that is not
complete, which the channel then holds in part. Each of the three parts of a
turn is looked at on its own; together they make the loop `Resumable`
(`resumable`), so that the connection and what the application has been handed
are a function of the bytes received (`processBytes_parts`).
-/

namespace XH.Proof.Live

open Impl.Live Impl.Live.Connection

variable {σ : Type} {a : App σ} {p p' : Connection σ} {i : Nat} {buffer rest : List Byte}

@[simp] theorem setChannel_channels (p : Connection σ) (i : Nat) (c : Channel) : (p.setChannel i c).channels i = c :=
  Function.update_self ..

@[simp] theorem setChannel_setChannel (p : Connection σ) (i : Nat) (c d : Channel) :
    (p.setChannel i c).setChannel i d = p.setChannel i d := by
  simp only [setChannel, Function.update_idem]

/-! ## The channel of a chunk -/

theorem selectChannel_wait (e : p.selectChannel buffer = .wait p' rest) : p' = p ∧ rest = buffer := by
  match buffer with
  | [] => cases e; exact ⟨rfl, rfl⟩
  | b :: buffer =>
    simp only [selectChannel] at e
    split at e
    · match buffer with
      | [] => cases e; exact ⟨rfl, rfl⟩
      | b' :: buffer => cases e
    · split at e <;> cases e

theorem selectChannel_next (e : p.selectChannel buffer = .next p' rest) :
    p'.selectedChannel.isSome ∧ rest.length < buffer.length ∧
      ∀ more, p.selectChannel (buffer ++ more) = .next p' (rest ++ more) := by
  match buffer with
  | [] => cases e
  | b :: buffer =>
    simp only [selectChannel] at e
    split at e
    · rename_i h0
      match buffer with
      | [] => cases e
      | b' :: buffer =>
        cases e
        refine ⟨rfl, by simp only [List.length_cons]; omega, fun more => ?_⟩
        simp only [selectChannel, List.cons_append, if_pos h0]
    · rename_i h0
      split at e
      · cases e
      · rename_i h1
        cases e
        refine ⟨rfl, by simp only [List.length_cons]; omega, fun more => ?_⟩
        simp only [selectChannel, List.cons_append, if_neg h0, if_neg h1]

theorem selectChannel_fail (e : p.selectChannel buffer = .fail p') (more : List Byte) :
    p.selectChannel (buffer ++ more) = .fail p' := by
  match buffer with
  | [] => cases e
  | b :: buffer =>
    simp only [selectChannel] at e
    split at e
    · match buffer with
      | [] => cases e
      | b' :: buffer => cases e
    · rename_i h0
      split at e
      · rename_i h1
        cases e
        simp only [selectChannel, List.cons_append, if_neg h0, if_pos h1]
      · cases e

/-! ## Its header -/

/-- The four outcomes of a part with a header. -/
theorem readHeader_cases (p : Connection σ) (i : Nat) (buffer : List Byte) :
    ((p.channels i).state = .payload ∧ p.readHeader i buffer = .next p buffer) ∨
      (p.channels i).state = .header ∧
        ((¬ IsType (p.channels i).lastInHeaderType ∧ p.readHeader i buffer = .fail p) ∨
          ∃ h rest, IsType (p.channels i).lastInHeaderType ∧
            (p.channels i).lastInHeader.read i (p.channels i).lastInHeaderType buffer buffer.length =
              (true, h, rest) ∧
            p.readHeader i buffer =
              if h.readCompleted then .next (p.setChannel i (headerRead (p.channels i) h)) rest
              else .wait (p.setChannel i { p.channels i with lastInHeader := h }) rest) := by
  cases hs : (p.channels i).state with
  | payload => exact .inl ⟨rfl, by simp only [readHeader, hs]⟩
  | header =>
    refine .inr ⟨rfl, ?_⟩
    by_cases ht : IsType (p.channels i).lastInHeaderType
    · refine .inr ?_
      obtain ⟨h, rest, hr⟩ := read_ok ht (p.channels i).lastInHeader i buffer buffer.length
      refine ⟨h, rest, ht, hr, ?_⟩
      cases hc : h.readCompleted <;>
        simp only [readHeader, hs, hr, hc, Bool.not_true, Bool.not_false, Bool.false_eq_true, if_true, if_false]
    · refine .inl ⟨ht, ?_⟩
      simp only [IsType, not_or] at ht
      simp only [readHeader, hs, Header.read, ht.1, ht.2.1, ht.2.2.1, ht.2.2.2, if_false, Bool.not_false, if_true]

theorem readHeader_next (e : p.readHeader i buffer = .next p' rest) :
    (p'.channels i).state = .payload ∧ p'.selectedChannel = p.selectedChannel ∧ rest.length ≤ buffer.length ∧
      ∀ more, p.readHeader i (buffer ++ more) = .next p' (rest ++ more) := by
  rcases readHeader_cases p i buffer with ⟨hs, he⟩ | ⟨hs, ⟨-, he⟩ | ⟨h, r, hty, hr, he⟩⟩
  · rw [he] at e
    cases e
    exact ⟨hs, rfl, Nat.le_refl _, fun more => by simp only [readHeader, hs]⟩
  · rw [he] at e
    cases e
  · rw [he] at e
    split at e
    · rename_i hc
      cases e
      have hl := read_length (p.channels i).lastInHeader i (p.channels i).lastInHeaderType buffer buffer.length
      rw [hr] at hl
      refine ⟨by rw [setChannel_channels]; rfl, rfl, hl, fun more => ?_⟩
      simp only [readHeader, hs, read_append hty hr hc more, hc, Bool.not_true, Bool.false_eq_true, if_false]
    · cases e

theorem readHeader_fail (e : p.readHeader i buffer = .fail p') (more : List Byte) :
    p.readHeader i (buffer ++ more) = .fail p' := by
  rcases readHeader_cases p i buffer with ⟨-, he⟩ | ⟨hs, ⟨hty, he⟩ | ⟨h, r, -, -, he⟩⟩
  · rw [he] at e
    cases e
  · rw [he] at e
    cases e
    rcases readHeader_cases p i (buffer ++ more) with ⟨hs', -⟩ | ⟨-, ⟨-, he'⟩ | ⟨h', r', hty', -⟩⟩
    · rw [hs] at hs'
      cases hs'
    · exact he'
    · exact absurd hty' hty
  · rw [he] at e
    split at e <;> cases e

theorem readHeader_wait (e : p.readHeader i buffer = .wait p' rest) :
    rest = buffer ∧ p'.selectedChannel = p.selectedChannel ∧
      ∀ more, p.readHeader i (buffer ++ more) = p'.readHeader i (buffer ++ more) := by
  rcases readHeader_cases p i buffer with ⟨-, he⟩ | ⟨hs, ⟨-, he⟩ | ⟨h, r, hty, hr, he⟩⟩
  · rw [he] at e
    cases e
  · rw [he] at e
    cases e
  · rw [he] at e
    split at e
    · cases e
    · rename_i hc
      cases e
      obtain ⟨h₁, h₂⟩ := read_resume hty hr (Bool.eq_false_iff.mpr hc)
      refine ⟨h₁, rfl, fun more => ?_⟩
      obtain ⟨h', r', hr'⟩ := read_ok hty (p.channels i).lastInHeader i (buffer ++ more) (buffer ++ more).length
      simp only [readHeader, setChannel_channels, hs, h₂ more, hr', setChannel_setChannel, Bool.not_true,
        Bool.false_eq_true, if_false]
      rfl

/-! ## Its data -/

theorem takePayload_wait (e : p.takePayload a i buffer = .wait p' rest) : p' = p ∧ rest = buffer := by
  simp only [takePayload] at e
  split at e
  · cases e
    exact ⟨rfl, rfl⟩
  · split at e <;> cases e

/-- What processes a number keeps. -/
def Selecting (process : Connection σ → Nat → Option (Connection σ)) : Prop :=
  ∀ p n p', process p n = some p' → p'.selectedChannel = p.selectedChannel

theorem selecting_processChunkSize : Selecting (@processChunkSize σ) := by
  intro p n p' e
  rw [processChunkSize] at e
  split at e <;> cases e
  rfl

theorem selecting_processAbortMessage : Selecting (@processAbortMessage σ) := by
  intro p n p' e
  rw [processAbortMessage] at e
  split at e <;> cases e
  rfl

theorem processUInt32_selectedChannel {process : Connection σ → Nat → Option (Connection σ)}
    (hp : Selecting process) (e : p.processUInt32 i process = some p') :
    p'.selectedChannel = p.selectedChannel := by
  rw [processUInt32] at e
  split at e
  · cases e
  · exact hp (p.setChannel i _) _ p' e

theorem inboundMessageAvailable_selectedChannel (e : p.inboundMessageAvailable a i = some p') :
    p'.selectedChannel = p.selectedChannel := by
  rw [inboundMessageAvailable] at e
  split at e
  · exact processUInt32_selectedChannel selecting_processChunkSize e
  · split at e
    · exact processUInt32_selectedChannel selecting_processAbortMessage e
    · obtain ⟨r, -, rfl⟩ := Option.map_eq_some_iff.mp e
      rfl

theorem takeData_selectedChannel {isAudio : Bool} {data : List Byte} (e : p.takeData a i isAudio data = some p') :
    p'.selectedChannel = p.selectedChannel := by
  rw [takeData] at e
  split at e
  · cases e
  · obtain ⟨r, -, rfl⟩ := Option.map_eq_some_iff.mp e
    rfl

theorem takeMessage_selectedChannel {data : List Byte} (e : p.takeMessage a i data = some p') :
    p'.selectedChannel = p.selectedChannel := by
  rw [takeMessage] at e
  split at e
  · exact inboundMessageAvailable_selectedChannel (p := p.setChannel i _) (Option.filter_eq_some_iff.mp e).1
  · cases e
    rfl

theorem takePayload_next (e : p.takePayload a i buffer = .next p' rest) :
    p'.selectedChannel = none ∧ rest.length ≤ buffer.length ∧
      ∀ more, p.takePayload a i (buffer ++ more) = .next p' (rest ++ more) := by
  simp only [takePayload] at e
  split at e
  · cases e
  · rename_i hl
    split at e
    · cases e
    · rename_i q he
      cases e
      refine ⟨?_, by rw [List.length_drop]; omega, fun more => ?_⟩
      · split at he
        · exact takeData_selectedChannel he
        · split at he
          · exact takeData_selectedChannel he
          · exact takeMessage_selectedChannel he
      · have hm : ¬ (buffer ++ more).length < p.chunkLength (p.channels i) := by rw [List.length_append]; omega
        have ht : (buffer ++ more).take (p.chunkLength (p.channels i)) = buffer.take (p.chunkLength (p.channels i)) :=
          List.take_append_of_le_length (by omega)
        simp only [takePayload, if_neg hm, ht, he]
        rw [List.drop_append_of_le_length (by omega)]

theorem takePayload_fail (e : p.takePayload a i buffer = .fail p') (more : List Byte) :
    p.takePayload a i (buffer ++ more) = .fail p' := by
  simp only [takePayload] at e
  split at e
  · cases e
  · rename_i hl
    split at e
    · rename_i he
      have hm : ¬ (buffer ++ more).length < p.chunkLength (p.channels i) := by rw [List.length_append]; omega
      have ht : (buffer ++ more).take (p.chunkLength (p.channels i)) = buffer.take (p.chunkLength (p.channels i)) :=
        List.take_append_of_le_length (by omega)
      cases e
      simp only [takePayload, if_neg hm, ht, he]
    · cases e

/-! ## A turn of the loop -/

/-- What a turn does with the channel it has selected. -/
def chunkTurn (a : App σ) (p : Connection σ) (buffer : List Byte) : Turn (Connection σ) Byte :=
  let i := p.selectedChannel.getD 0
  if maxChannelsCount ≤ i then .fail p
  else followedBy (p.readHeader i buffer) fun p buffer => p.takePayload a i buffer

theorem processTurn_of_selected (h : p.selectedChannel.isSome) (buffer : List Byte) :
    p.processTurn a buffer = chunkTurn a p buffer := by
  rw [processTurn, Option.isNone_eq_false_iff.mpr h]
  rfl

theorem processTurn_of_none (h : p.selectedChannel = none) (buffer : List Byte) :
    p.processTurn a buffer = followedBy (p.selectChannel buffer) (chunkTurn a) := by
  rw [processTurn, h]
  rfl

theorem chunkTurn_next (e : chunkTurn a p buffer = .next p' rest) :
    p'.selectedChannel = none ∧ rest.length ≤ buffer.length ∧
      ∀ more, chunkTurn a p (buffer ++ more) = .next p' (rest ++ more) := by
  simp only [chunkTurn] at e
  split at e
  · cases e
  · rename_i hi
    cases hr : p.readHeader (p.selectedChannel.getD 0) buffer with
    | wait q b => rw [hr] at e; cases e
    | fail q => rw [hr] at e; cases e
    | next q b =>
      rw [hr] at e
      obtain ⟨-, -, hl, hm⟩ := readHeader_next hr
      obtain ⟨h₁, h₂, h₃⟩ := takePayload_next e
      refine ⟨h₁, by omega, fun more => ?_⟩
      simp only [chunkTurn, if_neg hi, hm more, followedBy]
      exact h₃ more

theorem chunkTurn_fail (e : chunkTurn a p buffer = .fail p') (more : List Byte) :
    chunkTurn a p (buffer ++ more) = .fail p' := by
  simp only [chunkTurn] at e ⊢
  split at e
  · rename_i hi
    rw [if_pos hi, e]
  · rename_i hi
    rw [if_neg hi]
    cases hr : p.readHeader (p.selectedChannel.getD 0) buffer with
    | wait q b => rw [hr] at e; cases e
    | fail q =>
      rw [hr] at e
      rw [readHeader_fail hr more]
      exact e
    | next q b =>
      rw [hr] at e
      obtain ⟨-, -, -, hm⟩ := readHeader_next hr
      rw [hm more]
      exact takePayload_fail e more

/-- A turn that waits with a channel is taken up where it was. -/
theorem chunkTurn_wait (e : chunkTurn a p buffer = .wait p' rest) :
    p'.selectedChannel = p.selectedChannel ∧
      ∀ more, chunkTurn a p (buffer ++ more) = chunkTurn a p' (rest ++ more) := by
  simp only [chunkTurn] at e
  split at e
  · cases e
  · rename_i hi
    cases hr : p.readHeader (p.selectedChannel.getD 0) buffer with
    | wait q b =>
      rw [hr] at e
      cases e
      obtain ⟨rfl, hs, hm⟩ := readHeader_wait hr
      refine ⟨hs, fun more => ?_⟩
      simp only [chunkTurn, hs, if_neg hi, hm more]
    | fail q => rw [hr] at e; cases e
    | next q b =>
      rw [hr] at e
      obtain ⟨rfl, rfl⟩ := takePayload_wait e
      obtain ⟨hp, hs, -, hm⟩ := readHeader_next hr
      refine ⟨hs, fun more => ?_⟩
      have hq : p'.readHeader (p.selectedChannel.getD 0) (rest ++ more) = .next p' (rest ++ more) := by
        simp only [readHeader, hp]
      simp only [chunkTurn, hs, if_neg hi, hm more, hq]

/-- Nothing depends on when the loop of `ProcessBytes` runs. -/
theorem resumable (a : App σ) : Resumable (processTurn a) rounds where
  left_lt {p p' buffer rest} e := by
    cases h : p.selectedChannel with
    | none =>
      rw [processTurn_of_none h] at e
      cases hs : p.selectChannel buffer with
      | wait q b => rw [hs] at e; cases e
      | fail q => rw [hs] at e; cases e
      | next q b =>
        rw [hs] at e
        obtain ⟨-, hl, -⟩ := selectChannel_next hs
        obtain ⟨hn, hl', -⟩ := chunkTurn_next e
        rw [rounds, rounds, hn, h]
        simp only [Option.isSome_none, Bool.false_eq_true, if_false]
        omega
    | some i =>
      rw [processTurn_of_selected (by rw [h]; rfl)] at e
      obtain ⟨hn, hl, -⟩ := chunkTurn_next e
      rw [rounds, rounds, hn, h]
      simp only [Option.isSome_none, Option.isSome_some, Bool.false_eq_true, if_false, if_true]
      omega
  next_append {p p' buffer rest} e more := by
    cases h : p.selectedChannel with
    | none =>
      rw [processTurn_of_none h] at e ⊢
      cases hs : p.selectChannel buffer with
      | wait q b => rw [hs] at e; cases e
      | fail q => rw [hs] at e; cases e
      | next q b =>
        rw [hs] at e
        rw [(selectChannel_next hs).2.2 more]
        exact (chunkTurn_next e).2.2 more
    | some i =>
      have hi : p.selectedChannel.isSome := by rw [h]; rfl
      rw [processTurn_of_selected hi] at e ⊢
      exact (chunkTurn_next e).2.2 more
  fail_append {p p' buffer} e more := by
    cases h : p.selectedChannel with
    | none =>
      rw [processTurn_of_none h] at e ⊢
      cases hs : p.selectChannel buffer with
      | wait q b => rw [hs] at e; cases e
      | fail q =>
        rw [hs] at e
        rw [selectChannel_fail hs more]
        exact e
      | next q b =>
        rw [hs] at e
        rw [(selectChannel_next hs).2.2 more]
        exact chunkTurn_fail e more
    | some i =>
      have hi : p.selectedChannel.isSome := by rw [h]; rfl
      rw [processTurn_of_selected hi] at e ⊢
      exact chunkTurn_fail e more
  wait_append {p p' buffer rest} e more := by
    cases h : p.selectedChannel with
    | none =>
      rw [processTurn_of_none h] at e
      cases hs : p.selectChannel buffer with
      | wait q b =>
        rw [hs] at e
        cases e
        obtain ⟨rfl, rfl⟩ := selectChannel_wait hs
        rfl
      | fail q => rw [hs] at e; cases e
      | next q b =>
        rw [hs] at e
        obtain ⟨hq, -, hm⟩ := selectChannel_next hs
        obtain ⟨hs', hw⟩ := chunkTurn_wait e
        rw [processTurn_of_none h, hm more, processTurn_of_selected (by rw [hs']; exact hq)]
        exact hw more
    | some i =>
      have hi : p.selectedChannel.isSome := by rw [h]; rfl
      rw [processTurn_of_selected hi] at e ⊢
      obtain ⟨hs', hw⟩ := chunkTurn_wait e
      rw [processTurn_of_selected (by rw [hs']; exact hi)]
      exact hw more

end XH.Proof.Live
