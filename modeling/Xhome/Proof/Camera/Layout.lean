import Xhome.Impl.Camera.Interface

/-!
# Frames in the ring

Where the frames lie that have been neither popped nor discarded (`Layout`):
one behind the other from `read_pos` to `write_pos`; or, when the writer has
started over, the older ones from `read_pos` to `buffer_end_pos` and the newer
ones from the beginning to `write_pos`; or the reader is back at the beginning
behind a last frame that ended with the buffer. `myfree` passes over the
oldest of them (`Layout.myfree`).
-/

namespace XH.Proof.Camera

open XH.Impl.Camera

/-- The frames lie one behind the other, with a free byte behind each. -/
abbrev FramesAt (m : Mem) (p : Nat) (fs : List Frame) (q : Nat) : Prop := Laid Frame.bytes 1 m p fs q

theorem length_info (f : FrameInfo) : f.bytes.length = sizeofFrameInfo := by
  simp only [FrameInfo.bytes, List.flatMap_cons, List.flatMap_nil, List.length_append, length_bytesOf,
    List.length_nil, sizeofFrameInfo]

theorem length_frame (f : Frame) : f.bytes.length = sizeofFrameInfo + f.info.size.toNat := by
  rw [Frame.bytes, List.length_append, length_info, f.sized]

theorem span_frame (f : Frame) : span Frame.bytes 1 f = sizeofFrameInfo + f.info.size.toNat + 1 := by
  rw [span, length_frame]

theorem span_pos (f : Frame) : 0 < span Frame.bytes 1 f := Nat.succ_pos _

/-- A frame begins with eight fields of four bytes, and then comes its size. -/
theorem frame_size (f : Frame) : ∃ head tail : List Byte, head.length = sizeOffset ∧
    f.bytes = head ++ (bytesOf 4 f.info.size.toNat ++ tail) := by
  refine ⟨[f.info.serialNo, f.info.width, f.info.height, f.info.format, f.info.frameType, f.info.timestamp,
      f.info.frameRateSamplingRate, f.info.videoCap].flatMap fun v => bytesOf 4 v.toNat, f.data, ?_, ?_⟩
  · simp only [List.flatMap_cons, List.flatMap_nil, List.length_append, length_bytesOf, List.length_nil, sizeOffset]
  · simp only [Frame.bytes, FrameInfo.bytes, List.flatMap_cons, List.flatMap_nil, List.append_assoc, List.append_nil]

/-- The size read from a stored frame. -/
theorem sizeAt_frame {m : Mem} {p : Nat} {f : Frame} (h : m.load p f.bytes.length = f.bytes) :
    sizeAt m p = f.info.size.toNat := by
  obtain ⟨head, tail, hh, he⟩ := frame_size f
  have hl : f.bytes.length = sizeOffset + (4 + tail.length) := by
    rw [he, List.length_append, List.length_append, hh, length_bytesOf]
  rw [hl, Mem.load_append, Mem.load_append, he] at h
  have h₁ := (List.append_inj h (by rw [Mem.length_load, hh])).2
  have h₂ := (List.append_inj h₁ (by rw [Mem.length_load, length_bytesOf])).1
  rw [sizeAt, h₂, valueOf_bytesOf]
  exact Nat.mod_eq_of_lt f.info.size.isLt

/-- `myfree` on a frame that fits the buffer. -/
theorem myfree_eq {r : Ring} {f : Frame} (h : r.buffer.load r.readPos f.bytes.length = f.bytes)
    (hs : span Frame.bytes 1 f ≤ maxMemory + 1) : topFrame r = f.bytes ∧
    myfree r = if r.bufferEndPos ≤ r.readPos + span Frame.bytes 1 f then
        { r with readPos := 0, bufferEndPos := maxMemory, freed := r.freed ++ [f.bytes] }
      else { r with readPos := r.readPos + span Frame.bytes 1 f, freed := r.freed ++ [f.bytes] } := by
  have hz := sizeAt_frame h
  rw [span_frame] at hs ⊢
  have hm : maxMemory + 1 < 2 ^ 32 := by decide
  have ht : topFrame r = f.bytes := by
    rw [topFrame, hz, u32_of_lt (by omega), ← length_frame]
    exact h
  refine ⟨ht, ?_⟩
  rw [myfree, hz, u32_of_lt (by omega), ht]

/-- Where the frames lie. -/
inductive Layout (r : Ring) : List Frame → Prop
  | straight (q : List Frame) (h : FramesAt r.buffer r.readPos q r.writePos) (hw : r.writePos ≤ maxMemory + 1)
      (he : r.bufferEndPos = maxMemory) : Layout r q
  | wrapped (old new : List Frame) (h : r.writePos < r.readPos) (ho : old ≠ [])
      (hold : FramesAt r.buffer r.readPos old r.bufferEndPos) (hnew : FramesAt r.buffer 0 new r.writePos)
      (he : r.bufferEndPos ≤ maxMemory + 1) : Layout r (old ++ new)
  | parked (hr : r.readPos = 0) (hw : maxMemory ≤ r.writePos) : Layout r []

theorem layout_initial : Layout .initial [] := .straight [] rfl (Nat.zero_le _) rfl

/-- `myfree` in the wrapped ring: the reader goes on, or back to the beginning behind the last old frame. -/
theorem myfree_wrapped {r : Ring} {f : Frame} {old : List Frame}
    (hold : FramesAt r.buffer r.readPos (f :: old) r.bufferEndPos) (he : r.bufferEndPos ≤ maxMemory + 1) :
    topFrame r = f.bytes ∧
    (old = [] → myfree r = { r with readPos := 0, bufferEndPos := maxMemory, freed := r.freed ++ [f.bytes] }) ∧
    (old ≠ [] → myfree r = { r with readPos := r.readPos + span Frame.bytes 1 f, freed := r.freed ++ [f.bytes] }) := by
  have hle := hold.2.le
  obtain ⟨ht, hm⟩ := myfree_eq hold.1 (by omega)
  refine ⟨ht, fun ho => ?_, fun ho => ?_⟩
  · subst ho
    rw [hm, if_pos (Nat.le_of_eq hold.2.symm)]
  · obtain ⟨g, old, rfl⟩ := List.exists_cons_of_ne_nil ho
    have hlt := hold.2.2.le
    have := span_pos g
    rw [hm, if_neg (by omega)]

/-- `myfree` passes over the oldest frame. -/
theorem Layout.myfree {r : Ring} {f : Frame} {q : List Frame} (h : Layout r (f :: q)) :
    topFrame r = f.bytes ∧ (myfree r).freed = r.freed ++ [f.bytes] ∧ Layout (myfree r) q := by
  generalize hq : f :: q = fq at h
  cases h with
  | straight _ h hw he =>
    subst hq
    have hle := h.2.le
    have hspan := span_frame f
    obtain ⟨ht, hm⟩ := myfree_eq h.1 (by omega)
    refine ⟨ht, ?_, ?_⟩
    · rw [hm]
      split <;> rfl
    · rw [hm, he]
      split
      · -- the frame ended with the buffer, so it was the last one
        rename_i hend
        rcases q with _ | ⟨g, q⟩
        · exact .parked rfl (h.2 ▸ hend)
        · have := h.2.2.le
          have := span_frame g
          simp only [sizeofFrameInfo] at *
          omega
      · exact .straight q h.2 hw rfl
  | wrapped old new h ho hold hnew he =>
    obtain ⟨g, old, rfl⟩ := List.exists_cons_of_ne_nil ho
    obtain ⟨rfl, rfl⟩ := List.cons.inj hq
    obtain ⟨ht, h₁, h₂⟩ := myfree_wrapped hold he
    rcases old with _ | ⟨g, old⟩
    · rw [h₁ rfl]
      have := hold.2
      exact ⟨ht, rfl, .straight new hnew (by show r.writePos ≤ _; have := hold.le; omega) rfl⟩
    · rw [h₂ (by simp)]
      have := span_pos f
      exact ⟨ht, rfl, .wrapped (g :: old) new (by show r.writePos < r.readPos + _; omega) (by simp) hold.2 hnew he⟩
  | parked hr hw => cases hq

end XH.Proof.Camera
