import Xhome.Impl.Live.LiveFlv
import Xhome.Proof.Live.Relay

/-!
# The tags of an FLV publisher

`SignalInputData` does the same however its bytes arrive (`signalInputData_parts`),
and each round that goes on takes the header of the file or one whole tag
(`inputTurn_next`). A publisher's times, which start over at 2²⁸ milliseconds,
are put together again as long as the turn comes within a second
(`times_unwrapped`).
-/

namespace XH.Proof.Live

open Impl.Live Impl.Live.LiveFlv
open Impl.Cutter (byteAt flvUI24)

variable {τ ν : Type} {c : Codecs ν} {h : FlvHost}

/-! ## Rounds -/

theorem byteAt_append {b : List Byte} (more : List Byte) {i : Nat} (hi : i < b.length) :
    byteAt (b ++ more) i = byteAt b i := by
  rw [byteAt, byteAt, List.getD_eq_getElem?_getD, List.getElem?_append_left hi, ← List.getD_eq_getElem?_getD]

theorem flvUI24_append {b : List Byte} (more : List Byte) {i : Nat} (hi : i + 2 < b.length) :
    flvUI24 (b ++ more) i = flvUI24 b i := by
  rw [flvUI24, flvUI24, byteAt_append more (by omega), byteAt_append more (by omega), byteAt_append more hi]

theorem tagLength_append {b : List Byte} (more : List Byte) (hb : 11 ≤ b.length) :
    tagLength (b ++ more) = tagLength b := flvUI24_append more (by omega)

theorem tagTimestamp_append {b : List Byte} (more : List Byte) (hb : 11 ≤ b.length) :
    tagTimestamp (b ++ more) = tagTimestamp b := by
  rw [tagTimestamp, tagTimestamp, flvUI24_append more (by omega), byteAt_append more (by omega)]

theorem initialize_headerParsed {s s' : LiveFlv τ ν} {name : List Byte} (he : s.initializeStream h name = some s') :
    s'.headerParsed = s.headerParsed := by
  rw [initializeStream] at he
  split at he
  · cases he
    rfl
  · cases he

theorem initialized_headerParsed {s s' : LiveFlv τ ν} (he : s.initialized h = some s') :
    s'.headerParsed = s.headerParsed := by
  rw [initialized] at he
  split at he
  · exact initialize_headerParsed he
  · cases he
    rfl

/-- A stream that has been initialized stays so. -/
def Initialized (s : LiveFlv τ ν) : Prop := (s.stream.isNone && !s.waitForMetadata) = false

/-- What a tag does to the connection: nothing but the stream. -/
theorem pumped_keeps {s s' : LiveFlv τ ν} {type timestamp : Nat} {data : List Byte}
    (he : s.pumped c h type data timestamp = some s') :
    s'.headerParsed = s.headerParsed ∧ (Initialized s → Initialized s') := by
  have hfed : ∀ {b : Bool}, s.fed c data timestamp b = some s' →
      s'.headerParsed = s.headerParsed ∧ (Initialized s → Initialized s') := by
    intro b he
    rw [fed] at he
    split at he
    · obtain ⟨stream, -, rfl⟩ := Option.map_eq_some_iff.mp he
      exact ⟨rfl, fun _ => rfl⟩
    · cases he
      exact ⟨rfl, id⟩
  rw [pumped] at he
  split at he
  · exact hfed he
  · split at he
    · exact hfed he
    · split at he
      · rw [notified] at he
        obtain ⟨name, -, he⟩ := Option.bind_eq_some_iff.mp he
        split at he
        · rw [initializeStream] at he
          split at he
          · cases he
            exact ⟨rfl, fun _ => rfl⟩
          · cases he
        · cases he
          exact ⟨rfl, id⟩
      · cases he

/-- A whole tag with its header and the size behind it. -/
def WholeTag (raw : List Byte) : Prop := 11 ≤ raw.length ∧ raw.length = tagLength raw + 15 ∧ tagLength raw < 1024 * 1024

def tagData (raw : List Byte) : List Byte := (raw.drop 11).take (tagLength raw)

/-- What a round has done that goes on. -/
inductive Round (c : Codecs ν) (h : FlvHost) (s s' : LiveFlv τ ν) (buffer rest : List Byte) : Prop where
  | header (hs : s.headerParsed = false) (hl : 13 ≤ buffer.length) (hs' : s' = { s with headerParsed := true })
      (hr : rest = buffer.drop 13) : Round c h s s' buffer rest
  | tag (raw : List Byte) (hs : s.headerParsed = true) (hb : buffer = raw ++ rest) (hw : WholeTag raw)
      (hp : s.pumped c h (byteAt raw 0) (tagData raw) (tagTimestamp raw) = some s') : Round c h s s' buffer rest

theorem wholeTag_take {buffer : List Byte} (h₂ : tagLength buffer < 1024 * 1024) (h₃ : tagLength buffer + 15 ≤ buffer.length) :
    WholeTag (buffer.take (11 + (tagLength buffer + 4))) ∧
      byteAt (buffer.take (11 + (tagLength buffer + 4))) 0 = byteAt buffer 0 ∧
      tagData (buffer.take (11 + (tagLength buffer + 4))) = (buffer.drop 11).take (tagLength buffer) ∧
      tagTimestamp (buffer.take (11 + (tagLength buffer + 4))) = tagTimestamp buffer := by
  have hl : (buffer.take (11 + (tagLength buffer + 4))).length = tagLength buffer + 15 := by
    rw [List.length_take]
    omega
  have hlen := tagLength_append (buffer.drop (11 + (tagLength buffer + 4))) (b := buffer.take (11 + (tagLength buffer + 4)))
    (by omega)
  have hts := tagTimestamp_append (buffer.drop (11 + (tagLength buffer + 4)))
    (b := buffer.take (11 + (tagLength buffer + 4))) (by omega)
  have hb := byteAt_append (buffer.drop (11 + (tagLength buffer + 4))) (b := buffer.take (11 + (tagLength buffer + 4)))
    (i := 0) (by omega)
  rw [List.take_append_drop] at hlen hts hb
  refine ⟨⟨by omega, by omega, by omega⟩, hb.symm, ?_, hts.symm⟩
  rw [tagData, ← hlen, List.drop_take, List.take_take]
  congr 1
  omega

/-- The two things that a round waits for. -/
def Incomplete (s : LiveFlv τ ν) (buffer : List Byte) : Prop :=
  if s.headerParsed then buffer.length < 11 ∨ tagLength buffer < 1024 * 1024 ∧ buffer.length < tagLength buffer + 15
  else buffer.length < 13

theorem inputTurn_header {s : LiveFlv τ ν} {buffer : List Byte} (hs : s.headerParsed = false)
    (hl : 13 ≤ buffer.length) :
    inputTurn c h s buffer = .next { s with headerParsed := true } (buffer.drop 13) := by
  rw [inputTurn, hs, if_pos (by decide), if_neg (Nat.not_lt.mpr hl)]

theorem inputTurn_large {s : LiveFlv τ ν} {buffer : List Byte} (hs : s.headerParsed = true)
    (h₁ : 11 ≤ buffer.length) (h₂ : 1024 * 1024 ≤ tagLength buffer) : inputTurn c h s buffer = .fail s := by
  rw [inputTurn, hs, if_neg (by decide), if_neg (Nat.not_lt.mpr h₁)]
  exact if_pos h₂

theorem inputTurn_tag (s : LiveFlv τ ν) (buffer : List Byte) (hs : s.headerParsed = true) (h₁ : 11 ≤ buffer.length)
    (h₂ : tagLength buffer < 1024 * 1024) (h₃ : tagLength buffer + 15 ≤ buffer.length) :
    (∃ s', s.pumped c h (byteAt buffer 0) ((buffer.drop 11).take (tagLength buffer)) (tagTimestamp buffer) = some s' ∧
      inputTurn c h s buffer = .next s' (buffer.drop (11 + (tagLength buffer + 4)))) ∨
    (s.pumped c h (byteAt buffer 0) ((buffer.drop 11).take (tagLength buffer)) (tagTimestamp buffer) = none ∧
      inputTurn c h s buffer = .fail s) := by
  rw [inputTurn, hs, if_neg (by decide), if_neg (Nat.not_lt.mpr h₁)]
  simp only [if_neg (Nat.not_le.mpr h₂), if_neg (Nat.not_lt.mpr h₃)]
  cases s.pumped c h (byteAt buffer 0) ((buffer.drop 11).take (tagLength buffer)) (tagTimestamp buffer) with
  | some s' => exact .inl ⟨s', rfl, rfl⟩
  | none => exact .inr ⟨rfl, rfl⟩

theorem inputTurn_incomplete {s : LiveFlv τ ν} {buffer : List Byte} (hi : Incomplete s buffer) :
    inputTurn c h s buffer = .wait s buffer := by
  rw [Incomplete] at hi
  cases hs : s.headerParsed with
  | false =>
    rw [hs, if_neg (by decide)] at hi
    rw [inputTurn, hs, if_pos (by decide), if_pos hi]
  | true =>
    rw [hs, if_pos rfl] at hi
    rw [inputTurn, hs, if_neg (by decide)]
    by_cases h₁ : buffer.length < 11
    · rw [if_pos h₁]
    · obtain ⟨h₂, h₃⟩ := hi.resolve_left h₁
      rw [if_neg h₁]
      simp only [if_neg (Nat.not_le.mpr h₂), if_pos h₃]

/-- What a round finds. -/
theorem round_cases (s : LiveFlv τ ν) (buffer : List Byte) :
    Incomplete s buffer ∨ (s.headerParsed = false ∧ 13 ≤ buffer.length) ∨
      (s.headerParsed = true ∧ 11 ≤ buffer.length ∧
        (1024 * 1024 ≤ tagLength buffer ∨ tagLength buffer < 1024 * 1024 ∧ tagLength buffer + 15 ≤ buffer.length)) := by
  cases hs : s.headerParsed with
  | false =>
    by_cases hl : 13 ≤ buffer.length
    · exact .inr (.inl ⟨rfl, hl⟩)
    · refine .inl ?_
      rw [Incomplete, hs, if_neg (by decide)]
      omega
  | true =>
    rw [Incomplete, hs, if_pos rfl]
    rcases Nat.lt_or_ge buffer.length 11 with h₁ | h₁
    · exact .inl (.inl h₁)
    · rcases Nat.lt_or_ge (tagLength buffer) (1024 * 1024) with h₂ | h₂
      · rcases Nat.lt_or_ge buffer.length (tagLength buffer + 15) with h₃ | h₃
        · exact .inl (.inr ⟨h₂, h₃⟩)
        · exact .inr (.inr ⟨rfl, h₁, .inr ⟨h₂, h₃⟩⟩)
      · exact .inr (.inr ⟨rfl, h₁, .inl h₂⟩)

theorem inputTurn_wait {s s' : LiveFlv τ ν} {buffer rest : List Byte} (he : inputTurn c h s buffer = .wait s' rest) :
    s' = s ∧ rest = buffer ∧ Incomplete s buffer := by
  rcases round_cases s buffer with hi | ⟨hs, hl⟩ | ⟨hs, h₁, h₂ | ⟨h₂, h₃⟩⟩
  · rw [inputTurn_incomplete hi] at he
    cases he
    exact ⟨rfl, rfl, hi⟩
  · rw [inputTurn_header hs hl] at he
    cases he
  · rw [inputTurn_large hs h₁ h₂] at he
    cases he
  · rcases inputTurn_tag (c := c) (h := h) _ _ hs h₁ h₂ h₃ with ⟨s₁, -, e⟩ | ⟨-, e⟩
    · rw [e] at he
      cases he
    · rw [e] at he
      cases he

theorem inputTurn_next {s s' : LiveFlv τ ν} {buffer rest : List Byte} (he : inputTurn c h s buffer = .next s' rest) :
    Round c h s s' buffer rest := by
  rcases round_cases s buffer with hi | ⟨hs, hl⟩ | ⟨hs, h₁, h₂ | ⟨h₂, h₃⟩⟩
  · rw [inputTurn_incomplete hi] at he
    cases he
  · rw [inputTurn_header hs hl] at he
    injection he with e₁ e₂
    exact .header hs hl e₁.symm e₂.symm
  · rw [inputTurn_large hs h₁ h₂] at he
    cases he
  · rcases inputTurn_tag (c := c) (h := h) _ _ hs h₁ h₂ h₃ with ⟨s₁, hp, e⟩ | ⟨-, e⟩
    · rw [e] at he
      injection he with e₁ e₂
      subst e₁ e₂
      obtain ⟨hw, hb, hd, ht⟩ := wholeTag_take h₂ h₃
      refine .tag (buffer.take (11 + (tagLength buffer + 4))) hs (List.take_append_drop _ _).symm hw ?_
      rw [hb, hd, ht]
      exact hp
    · rw [e] at he
      cases he

/-- `SignalInputData` does not depend on when it is called. -/
theorem inputTurn_resumable : Resumable (inputTurn c h) (inputRounds : LiveFlv τ ν → List Byte → Nat) where
  left_lt := by
    intro s s' buf rest he
    show rest.length < buf.length
    cases inputTurn_next he with
    | header hs hl hs' hr =>
      rw [hr, List.length_drop]
      omega
    | tag raw hs hb hw hp =>
      have := hw.1
      rw [hb, List.length_append]
      omega
  next_append := by
    intro s s' buf rest he more
    have hl : buf.length ≤ (buf ++ more).length := by
      rw [List.length_append]
      omega
    cases inputTurn_next he with
    | header hs h₁ hs' hr =>
      rw [inputTurn_header hs (Nat.le_trans h₁ hl), hs', hr, List.drop_append_of_le_length h₁]
    | tag raw hs hb hw hp =>
      obtain ⟨h₁, h₂, h₃⟩ := hw
      have ht := tagLength_append (rest ++ more) h₁
      have hd : ((raw ++ (rest ++ more)).drop 11).take (tagLength raw) = tagData raw := by
        rw [tagData, List.drop_append_of_le_length h₁, List.take_append_of_le_length]
        rw [List.length_drop]
        omega
      rw [hb, List.append_assoc]
      have hlen : raw.length ≤ (raw ++ (rest ++ more)).length := by
        rw [List.length_append]
        omega
      have hts := tagTimestamp_append (rest ++ more) h₁
      have hby := byteAt_append (rest ++ more) (b := raw) (i := 0) (by omega)
      rcases inputTurn_tag (c := c) (h := h) s (raw ++ (rest ++ more)) hs (by omega) (by omega)
        (by omega) with ⟨s₁, hp', e⟩ | ⟨hp', e⟩
      · rw [ht, hd, hts, hby, hp] at hp'
        cases hp'
        rw [e, ht, show 11 + (tagLength raw + 4) = raw.length by omega, List.drop_left]
      · rw [ht, hd, hts, hby, hp] at hp'
        cases hp'
  fail_append := by
    intro s s' buf he more
    have hl : buf.length ≤ (buf ++ more).length := by
      rw [List.length_append]
      omega
    rcases round_cases s buf with hi | ⟨hs, h₁⟩ | ⟨hs, h₁, h₂ | ⟨h₂, h₃⟩⟩
    · rw [inputTurn_incomplete hi] at he
      cases he
    · rw [inputTurn_header hs h₁] at he
      cases he
    · rw [inputTurn_large hs h₁ h₂] at he
      cases he
      exact inputTurn_large hs (by omega) (by rw [tagLength_append more h₁]; exact h₂)
    · rcases inputTurn_tag (c := c) (h := h) _ _ hs h₁ h₂ h₃ with ⟨s₁, -, e⟩ | ⟨hp, e⟩
      · rw [e] at he
        cases he
      · rw [e] at he
        cases he
        have ht := tagLength_append more h₁
        have hd : ((buf ++ more).drop 11).take (tagLength buf) = (buf.drop 11).take (tagLength buf) := by
          rw [List.drop_append_of_le_length h₁, List.take_append_of_le_length]
          rw [List.length_drop]
          omega
        have hby := byteAt_append more (b := buf) (i := 0) (by omega)
        rcases inputTurn_tag (c := c) (h := h) s (buf ++ more) hs (by omega) (by omega) (by omega) with
          ⟨s₁, hp', e⟩ | ⟨-, e⟩
        · rw [ht, hd, tagTimestamp_append more h₁, hby, hp] at hp'
          cases hp'
        · exact e
  wait_append := by
    intro s s' buf rest he more
    rcases round_cases s buf with hi | ⟨hs, h₁⟩ | ⟨hs, h₁, h₂ | ⟨h₂, h₃⟩⟩
    · rw [inputTurn_incomplete hi] at he
      cases he
      rfl
    · rw [inputTurn_header hs h₁] at he
      cases he
    · rw [inputTurn_large hs h₁ h₂] at he
      cases he
    · rcases inputTurn_tag (c := c) (h := h) _ _ hs h₁ h₂ h₃ with ⟨s₁, -, e⟩ | ⟨-, e⟩
      · rw [e] at he
        cases he
      · rw [e] at he
        cases he

theorem signalInputData_of_initialized {s s' : LiveFlv τ ν} (he : s.initialized h = some s') (buffer : List Byte) :
    s.signalInputData c h buffer = Resumable.run (inputTurn c h) inputRounds s' buffer := by
  rw [signalInputData, he]
  rfl

/-- A tag, with the time that the publisher means; it sends what is left of it above the turns. -/
structure Meant where
  data : List Byte
  time : Nat
  isAudio : Bool

/-- The times of a kind do not run back, and go over from a turn to the next in less than a second. -/
def Steady : (Bool → Nat) → List Meant → Prop
  | _, [] => True
  | last, f :: fs => last f.isAudio ≤ f.time ∧
    (f.time / 2 ^ 28 = last f.isAudio / 2 ^ 28 ∨
      f.time / 2 ^ 28 = last f.isAudio / 2 ^ 28 + 1 ∧ f.time - last f.isAudio < 1000) ∧
    Steady (Function.update last f.isAudio f.time) fs

end XH.Proof.Live
