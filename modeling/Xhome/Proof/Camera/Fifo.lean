import Xhome.Proof.Camera.Layout

/-!
# The ring as a queue

The loop of `myallocate` discards old frames until one of them begins behind
the new frame. `Fits` says when there is such a frame, or when nothing has to
be discarded; then a push keeps the frames in order (`pushFrame_fits`), and in
every run whose pushes fit and whose pops find a frame the reader gets the
frames in the order they were pushed (`frames_in_order`). Otherwise the reader
may be left behind the end of the frames (`frame_lost_at_wrap`).
-/

namespace XH.Proof.Camera

open XH.Impl.Camera

/-- The offsets of frames that lie one behind the other from `p` on. -/
def starts (p : Nat) : List Frame → List Nat
  | [] => []
  | f :: fs => p :: starts (p + span Frame.bytes 1 f) fs

theorem le_of_mem_starts {p x : Nat} {fs : List Frame} (h : x ∈ starts p fs) : p ≤ x := by
  induction fs generalizing p with
  | nil => cases h
  | cons f fs ih =>
    rcases List.mem_cons.mp h with rfl | h
    · exact Nat.le_refl _
    · exact Nat.le_trans (Nat.le_add_right _ _) (ih h)

theorem mem_starts_append {p x : Nat} {fs gs : List Frame} (h : x ∈ starts p fs) : x ∈ starts p (fs ++ gs) := by
  induction fs generalizing p with
  | nil => cases h
  | cons f fs ih =>
    rcases List.mem_cons.mp h with rfl | h
    · exact List.mem_cons_self
    · exact List.mem_cons_of_mem _ (ih h)

theorem length_starts (p : Nat) (fs : List Frame) : (starts p fs).length = fs.length := by
  induction fs generalizing p with
  | nil => rfl
  | cons f fs ih => rw [starts, List.length_cons, List.length_cons, ih]

/-- An offset in front of the end of the first frames is one of theirs. -/
theorem mem_starts_of_lt {m : Mem} {p q x : Nat} {fs gs : List Frame} (hl : FramesAt m p fs q)
    (h : x ∈ starts p (fs ++ gs)) (hx : x < q) : x ∈ starts p fs := by
  induction fs generalizing p with
  | nil =>
    obtain rfl : p = q := hl
    exact absurd (le_of_mem_starts h) (by omega)
  | cons f fs ih =>
    rcases List.mem_cons.mp h with rfl | h
    · exact List.mem_cons_self
    · exact List.mem_cons_of_mem _ (ih hl.2 h)

theorem lt_of_mem_starts {m : Mem} {p q x : Nat} {fs : List Frame} (hl : FramesAt m p fs q) (h : x ∈ starts p fs) :
    x + sizeofFrameInfo < q := by
  induction fs generalizing p with
  | nil => cases h
  | cons f fs ih =>
    rcases List.mem_cons.mp h with rfl | h
    · have hle := hl.2.le
      rw [span_frame] at hle
      omega
    · exact ih hl.2 h

/-- Where the reader comes by these frames: each behind the other, and from the end back to the beginning. -/
def places (endPos : Nat) : Nat → List Frame → List (Nat × Frame)
  | _, [] => []
  | p, f :: fs =>
    (p, f) :: places endPos (if endPos ≤ p + span Frame.bytes 1 f then 0 else p + span Frame.bytes 1 f) fs

/-- Where the frames lie in the ring. -/
abbrev placesIn (r : Ring) (q : List Frame) : List (Nat × Frame) := places r.bufferEndPos r.readPos q

/-- In front of the end the frames lie one behind the other, and behind it at the beginning. -/
theorem places_append {m : Mem} {e p c d : Nat} {fs gs : List Frame} (h : FramesAt m p fs c)
    (hx : ∀ x ∈ starts p fs, x < e) (hc : (c < e ∧ d = c) ∨ (c = e ∧ fs ≠ [] ∧ d = 0) ∨ gs = []) :
    places e p (fs ++ gs) = (starts p fs).zip fs ++ places e d gs := by
  induction fs generalizing p with
  | nil =>
    obtain rfl : p = c := h
    rcases hc with ⟨-, rfl⟩ | ⟨-, hne, -⟩ | rfl
    · rfl
    · exact absurd rfl hne
    · rfl
  | cons f fs ih =>
    simp only [List.cons_append, places, starts, List.zip_cons_cons]
    rw [starts, List.forall_mem_cons] at hx
    rcases fs with _ | ⟨g, fs⟩
    · obtain rfl : p + span Frame.bytes 1 f = c := h.2
      rcases hc with ⟨hc, rfl⟩ | ⟨rfl, -, rfl⟩ | rfl
      · rw [if_neg (by omega)]
        rfl
      · rw [if_pos (Nat.le_refl _)]
        rfl
      · rfl
    · rw [if_neg (Nat.not_le.mpr (hx.2 _ List.mem_cons_self)), ih h.2 hx.2 (hc.imp_right (Or.imp_left fun h => ⟨h.1, by simp, h.2.2⟩))]

theorem places_straight {m : Mem} {e p c : Nat} {fs : List Frame} (h : FramesAt m p fs c) (hc : c ≤ e + sizeofFrameInfo) :
    places e p fs = (starts p fs).zip fs := by
  have hp := @places_append m e p c 0 fs [] h
    (fun x hx => by have := lt_of_mem_starts h hx; omega) (.inr (.inr rfl))
  rwa [List.append_nil, places, List.append_nil] at hp

/-- The frame goes behind `write_pos`; or an old frame begins behind the place
of the new one, at `write_pos` or at the beginning; or the only frame lies at
the beginning. -/
def Fits (r : Ring) (q : List Frame) (size : Nat) : Prop :=
  (r.readPos ≤ r.writePos ∧ r.writePos + size ≤ maxMemory) ∨
  (r.writePos < r.readPos ∧ ∃ x ∈ starts r.readPos q, x < r.bufferEndPos ∧ r.writePos + size + 1 < x) ∨
  (r.readPos ≤ r.writePos ∧ ∃ x ∈ starts r.readPos q, size + 1 < x) ∨
  (r.readPos = 0 ∧ q.length = 1)

/-! ## Making room -/

/-- What discarding does: the oldest frames go, and the rest begins behind the place of the new frame. -/
structure Cleared (r : Ring) (old : List Frame) (size : Nat) (r' : Ring) : Prop where
  buffer : r'.buffer = r.buffer
  writePos : r'.writePos = r.writePos
  bufferEndPos : r'.bufferEndPos = r.bufferEndPos
  room : r.writePos + size + 1 < r'.readPos
  frames : ∃ gone kept, old = gone ++ kept ∧ kept ≠ [] ∧ r'.freed = r.freed ++ gone.map Frame.bytes ∧
    FramesAt r.buffer r'.readPos kept r.bufferEndPos

/-- The frames that the reader has passed begin in the place of the new one. -/
def Needed (r : Ring) (old : List Frame) (size : Nat) (r' : Ring) : Prop :=
  ∀ x ∈ starts r.readPos old, x < r'.readPos → x ≤ r.writePos + size + 1

theorem needed_self (r : Ring) (old : List Frame) (size : Nat) : Needed r old size r := fun _ hx hlt =>
  absurd (le_of_mem_starts hx) (Nat.not_le.mpr hlt)

/-- The loop ends at the first old frame behind the place of the new one. -/
theorem discardWhile_cleared (size : Nat) : ∀ (fuel : Nat) {r : Ring} {old : List Frame},
    FramesAt r.buffer r.readPos old r.bufferEndPos → r.bufferEndPos ≤ maxMemory + 1 →
    (∃ x ∈ starts r.readPos old, r.writePos + size + 1 < x) →
    (∀ r', discardWhile fuel r size = some r' → Cleared r old size r' ∧ Needed r old size r') ∧
      (old.length < fuel → ∃ r', discardWhile fuel r size = some r')
  | 0, _, _, _, _, _ => ⟨fun _ h => (by cases h), fun h => (by omega)⟩
  | fuel + 1, r, [], _, _, hx => by obtain ⟨x, hx, -⟩ := hx; cases hx
  | fuel + 1, r, f :: old, hold, he, hx => by
    rw [discardWhile]
    split
    · rename_i hle
      -- the frame at the reader goes, and the one behind the new frame is another
      obtain ⟨x, hx, hlt⟩ := hx
      rcases List.mem_cons.mp hx with rfl | hx
      · omega
      have hne : old ≠ [] := by rintro rfl; cases hx
      obtain ⟨-, -, hm⟩ := myfree_wrapped hold he
      have hd : discardFrame r = { r with readPos := r.readPos + span Frame.bytes 1 f, freed := r.freed ++ [f.bytes] } :=
        hm hne
      rw [hd]
      obtain ⟨h₁, h₂⟩ := discardWhile_cleared size fuel
        (r := { r with readPos := r.readPos + span Frame.bytes 1 f, freed := r.freed ++ [f.bytes] })
        hold.2 he ⟨x, hx, hlt⟩
      refine ⟨fun r' hr => ?_, fun hf => h₂ (by rw [List.length_cons] at hf; omega)⟩
      obtain ⟨⟨hb, hw, hend, hroom, gone, kept, rfl, hk, hfr, hl⟩, hn⟩ := h₁ r' hr
      refine ⟨⟨hb, hw, hend, hroom, f :: gone, kept, rfl, hk, ?_, hl⟩, fun x hx hlt => ?_⟩
      · rw [hfr, List.map_cons, List.append_assoc]
        rfl
      · rcases List.mem_cons.mp hx with rfl | hx
        · exact hle
        · exact hn x hx hlt
    · refine ⟨fun r' hr => ?_, fun _ => ⟨r, rfl⟩⟩
      cases hr
      exact ⟨⟨rfl, rfl, rfl, by omega, [], f :: old, rfl, by simp, by simp, hold⟩, needed_self _ _ _⟩

theorem makeRoom_cleared (fuel size : Nat) {r : Ring} {old : List Frame} (hw : r.writePos < r.readPos)
    (hold : FramesAt r.buffer r.readPos old r.bufferEndPos) (he : r.bufferEndPos ≤ maxMemory + 1)
    (hx : ∃ x ∈ starts r.readPos old, r.writePos + size + 1 < x) :
    (∀ r', makeRoom fuel r size = some r' → Cleared r old size r' ∧ Needed r old size r') ∧
      (old.length < fuel → ∃ r', makeRoom fuel r size = some r') := by
  rw [makeRoom]
  split
  · exact discardWhile_cleared size fuel hold he hx
  · rename_i hn
    refine ⟨fun r' hr => ?_, fun _ => ⟨r, rfl⟩⟩
    cases hr
    have hne : old ≠ [] := by
      rintro rfl
      obtain ⟨x, hx, -⟩ := hx
      cases hx
    exact ⟨⟨rfl, rfl, rfl, by omega, [], old, rfl, hne, by simp, hold⟩, needed_self _ _ _⟩

theorem makeRoom_straight {fuel size : Nat} {r : Ring} (h : r.readPos ≤ r.writePos) : makeRoom fuel r size = some r :=
  if_neg (by omega)

/-! ## Allocating -/

/-- `myallocate` with the writer not behind the reader and room behind it. -/
theorem myallocate_behind (fuel size : Nat) {r : Ring} (hr : r.readPos ≤ r.writePos)
    (hs : r.writePos + size ≤ maxMemory) : myallocate (fuel + 1) r size =
      some ({ r with writePos := r.writePos + (size + 1) }, r.writePos) := by
  simp only [myallocate, makeRoom_straight hr, Option.bind_eq_bind, Option.bind_some, if_neg (Nat.not_lt.mpr hs)]

/-- `myallocate` with the writer not behind the reader and no room behind it. -/
theorem myallocate_over {fuel size : Nat} {r : Ring} (hr : r.readPos ≤ r.writePos)
    (hs : maxMemory < r.writePos + size) : myallocate (fuel + 1) r size = myallocate fuel (wrap r) size := by
  simp only [myallocate, makeRoom_straight hr, Option.bind_eq_bind, Option.bind_some, if_pos hs]

/-- The place `p` for a frame of `size` bytes: the frames that are kept lie
outside of it, and with a frame stored there they are the newest but one. -/
structure Allocated (r : Ring) (q : List Frame) (size : Nat) (r' : Ring) (p : Nat) : Prop where
  buffer : r'.buffer = r.buffer
  frames : ∃ gone kept, q = gone ++ kept ∧ r'.freed = r.freed ++ gone.map Frame.bytes ∧
    ∀ f : Frame, f.bytes.length = size → Layout { r' with buffer := r'.buffer.store p f.bytes } (kept ++ [f])

/-- The frames that are discarded begin in the place of the new one, and the others are where they were. -/
structure Placement (r : Ring) (q : List Frame) (size : Nat) (r' : Ring) (p : Nat) : Prop
    extends Allocated r q size r' p where
  places : ∃ k, r'.freed.length = r.freed.length + k ∧ placesIn r' (q.drop k) = (placesIn r q).drop k ∧
    ∀ x ∈ (placesIn r q).take k, p ≤ x.1 ∧ x.1 ≤ p + size + 1

/-- Behind `write_pos`, with the writer not behind the reader. -/
theorem allocated_straight {r : Ring} {q : List Frame} {size : Nat} (h : FramesAt r.buffer r.readPos q r.writePos)
    (he : r.bufferEndPos = maxMemory) (hs : r.writePos + size ≤ maxMemory) :
    Allocated r q size { r with writePos := r.writePos + (size + 1) } r.writePos where
  buffer := rfl
  frames := ⟨[], q, rfl, by simp, fun f hf => by
    have hl := h.store (x := f)
    rw [span, hf] at hl
    exact .straight _ hl (by show r.writePos + (size + 1) ≤ _; omega) he⟩

theorem placement_straight {r : Ring} {q : List Frame} {size : Nat} (h : FramesAt r.buffer r.readPos q r.writePos)
    (he : r.bufferEndPos = maxMemory) (hs : r.writePos + size ≤ maxMemory) :
    Placement r q size { r with writePos := r.writePos + (size + 1) } r.writePos where
  toAllocated := allocated_straight h he hs
  places := ⟨0, rfl, rfl, fun _ hx => by cases hx⟩

/-- Behind `write_pos`, in front of the old frames. -/
theorem Cleared.allocated {r r' : Ring} {old new : List Frame} {size : Nat} (h : Cleared r old size r')
    (hnew : FramesAt r.buffer 0 new r.writePos) (he : r.bufferEndPos ≤ maxMemory + 1) :
    Allocated r (old ++ new) size { r' with writePos := r'.writePos + (size + 1) } r'.writePos where
  buffer := h.buffer
  frames := by
    obtain ⟨hb, hw, hend, hroom, gone, kept, rfl, hk, hfr, hl⟩ := h
    refine ⟨gone, kept ++ new, by rw [List.append_assoc], hfr, fun f hf => ?_⟩
    rw [List.append_assoc]
    have hold := hl.store_outside f.bytes (o := r.writePos) (.inr (by rw [hf]; omega))
    have hnew' := hnew.store (x := f)
    rw [span, hf] at hnew'
    refine .wrapped kept (new ++ [f]) ?_ hk ?_ ?_ ?_
    · show r'.writePos + (size + 1) < r'.readPos
      omega
    · show FramesAt (r'.buffer.store r'.writePos f.bytes) r'.readPos kept r'.bufferEndPos
      rw [hb, hw, hend]
      exact hold
    · show FramesAt (r'.buffer.store r'.writePos f.bytes) 0 (new ++ [f]) (r'.writePos + (size + 1))
      rw [hb, hw]
      exact hnew'
    · show r'.bufferEndPos ≤ _
      omega

theorem Cleared.placement {r r' : Ring} {old new : List Frame} {size : Nat} (h : Cleared r old size r')
    (hn : Needed r old size r') (hw : r.writePos < r.readPos) (hold : FramesAt r.buffer r.readPos old r.bufferEndPos)
    (hnew : FramesAt r.buffer 0 new r.writePos) (he : r.bufferEndPos ≤ maxMemory + 1) :
    Placement r (old ++ new) size { r' with writePos := r'.writePos + (size + 1) } r'.writePos where
  toAllocated := h.allocated hnew he
  places := by
    obtain ⟨-, hw', hend, -, gone, kept, rfl, hk, hfr, hl⟩ := h
    obtain ⟨c, hg, hl'⟩ := hold.split
    obtain rfl := hl.start_eq hl'
    have hlt : r'.readPos < r.bufferEndPos := by
      obtain ⟨g, kept, rfl⟩ := List.exists_cons_of_ne_nil hk
      have hpos := span_pos g
      have := hl.2.le
      omega
    have hp : placesIn r ((gone ++ kept) ++ new) =
        (starts r.readPos gone).zip gone ++ places r.bufferEndPos r'.readPos (kept ++ new) := by
      rw [List.append_assoc]
      refine places_append hg (fun x hx => ?_) (.inl ⟨hlt, rfl⟩)
      have := lt_of_mem_starts hg hx
      omega
    have hlen : ((starts r.readPos gone).zip gone).length = gone.length := by
      rw [List.length_zip, length_starts, Nat.min_self]
    refine ⟨gone.length, by rw [hfr, List.length_append, List.length_map], ?_, fun x hx => ?_⟩
    · rw [hp, List.drop_left' hlen, List.append_assoc, List.drop_left, placesIn]
      exact congrArg (places · r'.readPos (kept ++ new)) hend
    · rw [hp, List.take_left' hlen] at hx
      have hx' := (List.of_mem_zip (a := x.1) (b := x.2) hx).1
      have hle := le_of_mem_starts hx'
      have hmem : x.1 ∈ starts r.readPos (gone ++ kept) := mem_starts_append hx'
      have := hn x.1 hmem (by have := lt_of_mem_starts hg hx'; omega)
      omega

/-- `myallocate` in the wrapped ring. -/
theorem myallocate_wrapped (fuel size : Nat) {r : Ring} {old new : List Frame} (hw : r.writePos < r.readPos)
    (hold : FramesAt r.buffer r.readPos old r.bufferEndPos) (hnew : FramesAt r.buffer 0 new r.writePos)
    (he : r.bufferEndPos ≤ maxMemory + 1) (hx : ∃ x ∈ starts r.readPos old, r.writePos + size + 1 < x) :
    (∀ r' p, myallocate fuel r size = some (r', p) → Placement r (old ++ new) size r' p ∧ p = r.writePos) ∧
      (old.length + 1 < fuel → ∃ r' p, myallocate fuel r size = some (r', p)) := by
  obtain _ | fuel := fuel
  · exact ⟨fun _ _ h => (by cases h), fun h => (by omega)⟩
  obtain ⟨h₁, h₂⟩ := makeRoom_cleared fuel size hw hold he hx
  have hplace : ∀ r', makeRoom fuel r size = some r' →
      myallocate (fuel + 1) r size = some ({ r' with writePos := r'.writePos + (size + 1) }, r'.writePos) := by
    intro r' hr
    obtain ⟨⟨hb, hw', hend, hroom, gone, kept, -, hk, -, hl⟩, -⟩ := h₁ r' hr
    have hle := hl.le
    have hlt : ¬maxMemory < r'.writePos + size := by
      obtain ⟨g, kept, rfl⟩ := List.exists_cons_of_ne_nil hk
      have := hl.2.le
      have := span_frame g
      simp only [sizeofFrameInfo] at this
      omega
    simp only [myallocate, hr, Option.bind_eq_bind, Option.bind_some, if_neg hlt]
  refine ⟨fun r' p hr => ?_, fun hf => ?_⟩
  · rcases hm : makeRoom fuel r size with _ | r''
    · simp only [myallocate, hm, Option.bind_eq_bind, Option.bind_none] at hr
      cases hr
    · cases (hplace r'' hm).symm.trans hr
      obtain ⟨hc, hn⟩ := h₁ r'' hm
      exact ⟨hc.placement hn hw hold hnew he, hc.writePos⟩
  · obtain ⟨r', hr⟩ := h₂ (by omega)
    exact ⟨_, _, hplace r' hr⟩

/-- `wrap` keeps the buffer and discards the frames `gone`. -/
theorem Allocated.of_wrap {r r' : Ring} {q : List Frame} {size p : Nat} (gone : List Frame) (h : Allocated (wrap r) q size r' p)
    (hb : (wrap r).buffer = r.buffer) (hf : (wrap r).freed = r.freed ++ gone.map Frame.bytes) :
    Allocated r (gone ++ q) size r' p where
  buffer := h.buffer.trans hb
  frames := by
    obtain ⟨gone', kept, rfl, hfr, hl⟩ := h.frames
    refine ⟨gone ++ gone', kept, by rw [List.append_assoc], ?_, hl⟩
    rw [hfr, hf, List.map_append, List.append_assoc]

theorem Placement.of_wrap {r r' : Ring} {q : List Frame} {size p : Nat} (gone : List Frame)
    (h : Placement (wrap r) q size r' p) (hb : (wrap r).buffer = r.buffer)
    (hf : (wrap r).freed = r.freed ++ gone.map Frame.bytes)
    (hp : placesIn (wrap r) q = (placesIn r (gone ++ q)).drop gone.length)
    (hn : ∀ x ∈ (placesIn r (gone ++ q)).take gone.length, p ≤ x.1 ∧ x.1 ≤ p + size + 1) :
    Placement r (gone ++ q) size r' p where
  toAllocated := h.toAllocated.of_wrap gone hb hf
  places := by
    obtain ⟨k, hk, hd, hx⟩ := h.places
    refine ⟨gone.length + k, ?_, ?_, fun x hm => ?_⟩
    · rw [hk, hf, List.length_append, List.length_map, Nat.add_assoc]
    · rw [List.drop_length_add_append, hd, hp, List.drop_drop]
    · rw [List.take_add, ← hp] at hm
      rcases List.mem_append.mp hm with hm | hm
      · exact hn x hm
      · exact hx x hm

/-- The writer starts over with an old frame behind the place of the new one. -/
theorem myallocate_wrap (fuel size : Nat) {r : Ring} {q : List Frame} (h : FramesAt r.buffer r.readPos q r.writePos)
    (hw : r.writePos ≤ maxMemory + 1) (hend : r.bufferEndPos = maxMemory) (hs : 0 < size)
    (hx : ∃ x ∈ starts r.readPos q, size + 1 < x) :
    (∀ r' p, myallocate fuel (wrap r) size = some (r', p) → Placement r q size r' p) ∧
      (q.length + 1 < fuel → ∃ r' p, myallocate fuel (wrap r) size = some (r', p)) := by
  have hplaces : placesIn r q = (starts r.readPos q).zip q :=
    places_straight h (by rw [hend]; exact Nat.le_trans hw (by decide))
  by_cases h0 : r.readPos = 0
  · -- the frame at the beginning is discarded first
    obtain ⟨x, hx, hlt⟩ := hx
    obtain _ | ⟨f, q⟩ := q
    · cases hx
    rcases List.mem_cons.mp hx with rfl | hx
    · omega
    have hne : q ≠ [] := by rintro rfl; cases hx
    obtain ⟨-, -, hm⟩ := myfree_wrapped (r := { r with bufferEndPos := r.writePos, writePos := 0 }) h hw
    have he : wrap r = { r with
        bufferEndPos := r.writePos
        writePos := 0
        readPos := r.readPos + span Frame.bytes 1 f
        freed := r.freed ++ [f.bytes] } := by
      rw [wrap]
      exact (if_pos h0.symm).trans (hm hne)
    have hpos := span_pos f
    obtain ⟨h₁, h₂⟩ := @myallocate_wrapped fuel size (wrap r) q []
      (by rw [he]; show 0 < r.readPos + _; omega) (by rw [he]; exact h.2) (by rw [he]; rfl) (by rw [he]; exact hw)
      (by rw [he]; exact ⟨x, hx, by show 0 + size + 1 < x; omega⟩)
    rw [List.append_nil] at h₁
    refine ⟨fun r' p hr => ?_, fun hf => h₂ (by rw [List.length_cons] at hf; omega)⟩
    obtain ⟨hpl, rfl⟩ := h₁ r' p hr
    refine hpl.of_wrap [f] (by rw [he]) (by rw [he]; rfl) ?_ fun y hy => ?_
    · rw [List.singleton_append, hplaces, he]
      exact places_straight h.2 (Nat.le_add_right _ _)
    · rw [List.singleton_append, hplaces] at hy
      obtain rfl := List.mem_singleton.mp hy
      rw [he]
      exact ⟨Nat.zero_le _, by show r.readPos ≤ _; omega⟩
  · have he : wrap r = { r with bufferEndPos := r.writePos, writePos := 0 } := by
      rw [wrap]
      exact if_neg (Ne.symm h0)
    obtain ⟨x, hx, hlt⟩ := hx
    obtain ⟨h₁, h₂⟩ := @myallocate_wrapped fuel size (wrap r) q []
      (by rw [he]; show 0 < r.readPos; omega) (by rw [he]; exact h) (by rw [he]; rfl) (by rw [he]; exact hw)
      (by rw [he]; exact ⟨x, hx, by show 0 + size + 1 < x; omega⟩)
    rw [List.append_nil] at h₁
    refine ⟨fun r' p hr => (h₁ r' p hr).1.of_wrap [] (by rw [he]) (by rw [he]; simp) ?_ (fun y hy => by cases hy), h₂⟩
    rw [List.nil_append, hplaces, he]
    exact places_straight h (Nat.le_add_right _ _)

/-- Starting over with a single frame, at the beginning, empties the ring. -/
theorem wrap_single {r : Ring} {f : Frame} (h : FramesAt r.buffer r.readPos [f] r.writePos)
    (hw : r.writePos ≤ maxMemory + 1) (h0 : r.readPos = 0) : wrap r = { r with
      bufferEndPos := maxMemory
      writePos := 0
      readPos := 0
      freed := r.freed ++ [f.bytes] } := by
  obtain ⟨-, hm, -⟩ := myfree_wrapped (r := { r with bufferEndPos := r.writePos, writePos := 0 }) h hw
  rw [wrap]
  exact (if_pos h0.symm).trans (hm rfl)

/-- The writer starts over with a single frame, at the beginning. -/
theorem myallocate_wrap_single (fuel size : Nat) {r : Ring} {f : Frame} (h : FramesAt r.buffer r.readPos [f] r.writePos)
    (hw : r.writePos ≤ maxMemory + 1) (hs : size ≤ maxMemory) (h0 : r.readPos = 0) :
    (∀ r' p, myallocate fuel (wrap r) size = some (r', p) → Placement r [f] size r' p) ∧
      (0 < fuel → ∃ r' p, myallocate fuel (wrap r) size = some (r', p)) := by
  have he := wrap_single h hw h0
  obtain _ | fuel := fuel
  · exact ⟨fun _ _ h => (by cases h), fun h => (by omega)⟩
  have hplace := myallocate_behind fuel size (r := wrap r) (by rw [he])
    (by rw [he]; show 0 + size ≤ _; omega)
  refine ⟨fun r' p hr => ?_, fun _ => ⟨_, _, hplace⟩⟩
  cases hplace.symm.trans hr
  have ha := @placement_straight (wrap r) [] size (by rw [he]; rfl) (by rw [he])
    (by rw [he]; show 0 + size ≤ _; omega)
  apply ha.of_wrap [f] (by rw [he]) (by rw [he]; rfl) rfl
  intro y hy
  obtain rfl := List.mem_singleton.mp hy
  rw [he]
  exact ⟨Nat.zero_le _, by show r.readPos ≤ _; omega⟩

/-- `myallocate` for a frame that fits. -/
theorem myallocate_fits (fuel size : Nat) {r : Ring} {q : List Frame} (h : Layout r q) (hs : 0 < size)
    (hm : size ≤ maxMemory) (hf : Fits r q size) :
    (∀ r' p, myallocate fuel r size = some (r', p) → Placement r q size r' p) ∧
      (q.length + 2 < fuel → ∃ r' p, myallocate fuel r size = some (r', p)) := by
  cases h with
  | straight _ h hw he =>
    have hle := h.le
    obtain _ | fuel := fuel
    · exact ⟨fun _ _ h => (by cases h), fun h => (by omega)⟩
    by_cases hlt : maxMemory < r.writePos + size
    · rw [myallocate_over hle hlt]
      rcases hf with hf | hf | hf | ⟨h0, hq⟩
      · omega
      · omega
      · obtain ⟨h₁, h₂⟩ := myallocate_wrap fuel size h hw he hs hf.2
        exact ⟨h₁, fun hl => h₂ (by omega)⟩
      · obtain ⟨f, rfl⟩ := List.length_eq_one_iff.mp hq
        obtain ⟨h₁, h₂⟩ := myallocate_wrap_single fuel size h hw hm h0
        exact ⟨h₁, fun hl => h₂ (by omega)⟩
    · have hplace := myallocate_behind fuel size hle (Nat.not_lt.mp hlt)
      refine ⟨fun r' p hr => ?_, fun _ => ⟨_, _, hplace⟩⟩
      cases hplace.symm.trans hr
      exact placement_straight h he (by omega)
  | wrapped old new h ho hold hnew he =>
    have hx : ∃ x ∈ starts r.readPos old, r.writePos + size + 1 < x := by
      rcases hf with hf | ⟨-, x, hx, hlt, hx'⟩ | hf | hf
      · omega
      · exact ⟨x, mem_starts_of_lt hold hx hlt, hx'⟩
      · omega
      · omega
    obtain ⟨h₁, h₂⟩ := myallocate_wrapped fuel size h hold hnew he hx
    exact ⟨fun r' p hr => (h₁ r' p hr).1, fun hl => h₂ (by rw [List.length_append] at hl; omega)⟩
  | parked hr hw =>
    rcases hf with hf | ⟨-, x, hx, -⟩ | ⟨-, x, hx, -⟩ | hf
    · omega
    · cases hx
    · cases hx
    · exact absurd hf.2 (by decide)

theorem u32_length {f : Frame} (hm : f.bytes.length ≤ maxMemory) :
    u32 (sizeofFrameInfo + f.info.size.toNat) = f.bytes.length := by
  have hbig : maxMemory < 2 ^ 32 := by decide
  rw [← length_frame]
  exact u32_of_lt (by omega)

/-- `pushFrame` stores the frame where `myallocate` says. -/
theorem pushFrame_eq {fuel p : Nat} {r r' : Ring} {f : Frame} (hm : f.bytes.length ≤ maxMemory)
    (hr : myallocate fuel r f.bytes.length = some (r', p)) :
    pushFrame fuel r f = some { r' with buffer := r'.buffer.store p f.bytes } := by
  have hst : (r'.buffer.store p f.info.bytes).store (p + sizeofFrameInfo) f.data = r'.buffer.store p f.bytes := by
    rw [← length_info f.info, Mem.store_store, Frame.bytes]
  simp only [pushFrame, u32_length hm, hr, Option.bind_eq_bind, Option.bind_some, hst]

/-- A push of a frame that fits discards the oldest frames and adds the new one. -/
theorem pushFrame_fits (fuel : Nat) {r : Ring} {q : List Frame} {f : Frame} (h : Layout r q)
    (hm : f.bytes.length ≤ maxMemory) (hf : Fits r q f.bytes.length) :
    (∀ r', pushFrame fuel r f = some r' → ∃ gone kept, q = gone ++ kept ∧
      r'.freed = r.freed ++ gone.map Frame.bytes ∧ Layout r' (kept ++ [f])) ∧
    (q.length + 2 < fuel → ∃ r', pushFrame fuel r f = some r') := by
  have h36 : 0 < sizeofFrameInfo := by decide
  have hlen := length_frame f
  obtain ⟨h₁, h₂⟩ := myallocate_fits fuel _ h (by omega) (by omega) hf
  refine ⟨fun r' hr => ?_, fun hl => ?_⟩
  · rcases ha : myallocate fuel r f.bytes.length with _ | ⟨r'', p⟩
    · simp only [pushFrame, u32_length hm, ha, Option.bind_eq_bind, Option.bind_none] at hr
      cases hr
    · cases (pushFrame_eq hm ha).symm.trans hr
      obtain ⟨gone, kept, hq, hfr, hlay⟩ := (h₁ r'' p ha).frames
      exact ⟨gone, kept, hq, hfr, hlay f rfl⟩
  · obtain ⟨r', p, hr⟩ := h₂ hl
    exact ⟨_, pushFrame_eq hm hr⟩

/-! ## Runs -/

/-- The frames that have left the ring are the first ones pushed, and the others lie in it. -/
def InOrder (s : Service) : Prop :=
  ∃ gone q, s.pushed = gone ++ q ∧ s.ring.freed = gone.map Frame.bytes ∧ Layout s.ring q

theorem stored_eq {s : Service} {gone q : List Frame} (hp : s.pushed = gone ++ q)
    (hf : s.ring.freed = gone.map Frame.bytes) : s.stored = q := by
  rw [Service.stored, hp, hf, List.length_map, List.drop_left]

theorem InOrder.layout {s : Service} (h : InOrder s) : Layout s.ring s.stored := by
  obtain ⟨gone, q, hp, hf, hl⟩ := h
  rwa [stored_eq hp hf]

theorem InOrder.pushed_eq {s : Service} (h : InOrder s) :
    s.pushed.map Frame.bytes = s.ring.freed ++ s.stored.map Frame.bytes := by
  obtain ⟨gone, q, hp, hf, -⟩ := h
  rw [stored_eq hp hf, hp, hf, List.map_append]

/-- A frame that fits is pushed, and a pop finds a frame. -/
def Orderly (s : Service) : Event → Prop
  | .push _ f => sizeofFrameInfo + f.info.size.toNat + 1 ≤ maxMemory ∧ Fits s.ring s.stored f.bytes.length
  | .pop => s.stored ≠ []
  | _ => True

/-- As `Orderly`, with frames up to the whole buffer. -/
def Fitting (s : Service) : Event → Prop
  | .push _ f => f.bytes.length ≤ maxMemory ∧ Fits s.ring s.stored f.bytes.length
  | .pop => s.stored ≠ []
  | _ => True

theorem Orderly.fitting {s : Service} {e : Event} (h : Orderly s e) : Fitting s e := by
  cases e with
  | push fuel f => exact ⟨by have := h.1; rw [length_frame]; omega, h.2⟩
  | pop => exact h
  | post => exact h
  | wait => exact h

/-- A push that fits: the oldest frames go and the new one is the last. -/
theorem InOrder.push {s : Service} (h : InOrder s) {fuel : Nat} {f : Frame} (ho : Fitting s (.push fuel f)) :
    (s.stored.length + 2 < fuel → ∃ t, step s (.push fuel f) = some t) ∧
    ∀ t, step s (.push fuel f) = some t → InOrder t ∧ ∃ gone kept, s.stored = gone ++ kept ∧
      t.stored = kept ++ [f] ∧ t.ring.freed = s.ring.freed ++ gone.map Frame.bytes := by
  obtain ⟨h₁, h₂⟩ := pushFrame_fits fuel h.layout ho.1 ho.2
  refine ⟨fun hl => ?_, fun t ht => ?_⟩
  · obtain ⟨r, hr⟩ := h₂ hl
    exact ⟨_, by rw [step, hr]; rfl⟩
  · obtain ⟨r, hr, rfl⟩ := Option.map_eq_some_iff.mp ht
    obtain ⟨gone, kept, hq, hfr, hlay⟩ := h₁ r hr
    obtain ⟨gone', q, hp, hf, -⟩ := h
    rw [stored_eq hp hf] at hq ⊢
    subst hq
    have hpushed : s.pushed ++ [f] = (gone' ++ gone) ++ (kept ++ [f]) := by
      rw [hp, List.append_assoc, List.append_assoc, List.append_assoc]
    have hfreed : r.freed = (gone' ++ gone).map Frame.bytes := by rw [hfr, hf, List.map_append]
    exact ⟨⟨gone' ++ gone, kept ++ [f], hpushed, hfreed, hlay⟩, gone, kept, rfl, stored_eq hpushed hfreed, hfr⟩

/-- A pop that finds a frame returns the oldest one. -/
theorem InOrder.pop {s t : Service} (h : InOrder s) (ho : Fitting s .pop) (ht : step s .pop = some t) :
    InOrder t ∧ ∃ f, s.stored = f :: t.stored ∧ t.popped = s.popped ++ [f.bytes] ∧
      t.ring.freed = s.ring.freed ++ [f.bytes] := by
  rw [step] at ht
  split at ht
  · cases ht
    obtain ⟨gone, q, hp, hf, hl⟩ := h
    have hs := stored_eq hp hf
    have hne : s.stored ≠ [] := ho
    rw [hs] at hne
    obtain ⟨f, q, rfl⟩ := List.exists_cons_of_ne_nil hne
    obtain ⟨htop, hfr, hl'⟩ := hl.myfree
    have hpushed : s.pushed = (gone ++ [f]) ++ q := by rw [hp, List.append_assoc]; rfl
    have hfreed : (myfree s.ring).freed = (gone ++ [f]).map Frame.bytes := by rw [hfr, hf, List.map_append]; rfl
    have hst : Service.stored { s with
        ring := myfree s.ring
        waited := s.waited - 1
        popped := s.popped ++ [topFrame s.ring] } = q := stored_eq hpushed hfreed
    exact ⟨⟨gone ++ [f], q, hpushed, hfreed, hl'⟩, f, by rw [hs, hst], by rw [htop], hfr⟩
  · cases ht

theorem inOrder_initial : InOrder .initial := ⟨[], [], rfl, rfl, layout_initial⟩

theorem InOrder.step {s t : Service} {e : Event} (hi : InOrder s) (ho : Fitting s e) (ht : step s e = some t) :
    InOrder t := by
  cases e with
  | push fuel f => exact ((hi.push ho).2 t ht).1
  | pop => exact (hi.pop ho ht).1
  | post =>
    rw [Impl.Camera.step] at ht
    split at ht <;> cases ht
    exact hi
  | wait =>
    rw [Impl.Camera.step] at ht
    split at ht <;> cases ht
    exact hi

theorem inOrder_run {s : Service} (h : Reach step Fitting .initial s) : InOrder s :=
  Reach.invariant InOrder inOrder_initial (fun _ _ _ hi ho ht => hi.step ho ht) h

/-- In every run whose pushes fit and whose pops find a frame the ring is a
queue: a push returns and discards the oldest frames only, a pop returns the
oldest frame byte for byte, and the frames leave in the order they came. -/
theorem frames_in_order {s : Service} (h : Reach step Orderly .initial s) :
    s.pushed.map Frame.bytes = s.ring.freed ++ s.stored.map Frame.bytes ∧
    (∀ fuel f, Orderly s (.push fuel f) → s.stored.length + 2 < fuel → ∃ t, step s (.push fuel f) = some t) ∧
    (∀ fuel f t, Orderly s (.push fuel f) → step s (.push fuel f) = some t → ∃ gone kept,
      s.stored = gone ++ kept ∧ t.stored = kept ++ [f] ∧ t.ring.freed = s.ring.freed ++ gone.map Frame.bytes) ∧
    ∀ t, Orderly s .pop → step s .pop = some t → ∃ f, s.stored = f :: t.stored ∧
      t.popped = s.popped ++ [f.bytes] ∧ t.ring.freed = s.ring.freed ++ [f.bytes] := by
  have hi := inOrder_run (h.mono fun _ _ => Orderly.fitting)
  exact ⟨hi.pushed_eq, fun _ _ ho => (hi.push ho.fitting).1, fun _ _ t ho ht => ((hi.push ho.fitting).2 t ht).2,
    fun t ho ht => (hi.pop ho.fitting ht).2⟩

/-- A frame with `n` bytes of zeros. -/
def blankFrame (n : Nat) (h : n < 2 ^ 32) : Frame where
  info := ⟨0, 640, 480, 2, 1, 0, 25, 0, BitVec.ofNat 32 n⟩
  data := List.replicate n 0
  sized := by rw [List.length_replicate, BitVec.toNat_ofNat, Nat.mod_eq_of_lt h]

theorem size_blankFrame {n : Nat} (h : n < 2 ^ 32) : (blankFrame n h).info.size.toNat = n := by
  rw [blankFrame, BitVec.toNat_ofNat, Nat.mod_eq_of_lt h]

theorem fits_initial {size : Nat} (h : size ≤ maxMemory) (q : List Frame) : Fits .initial q size :=
  .inl ⟨Nat.le_refl 0, (Nat.zero_add size).symm ▸ h⟩

/-- A push has posted, and a pop has waited for it. -/
def handedOver (s : Service) : Service := { s with posting := s.posting - 1, waited := s.waited + 1 }

theorem reach_handedOver {ok : Service → Event → Prop} {s₀ s : Service} (h : Reach step ok s₀ s) (hp : 0 < s.posting)
    (hok : ∀ s, ok s .post ∧ ok s .wait) : Reach step ok s₀ (handedOver s) := by
  have h₁ : Reach step ok s₀ { s with posting := s.posting - 1, full := s.full + 1 } :=
    h.next (hok s).1 (by rw [step, if_pos hp])
  exact h₁.next (hok _).2 (by rw [step, if_pos (Nat.succ_pos _)]; rfl)

/-- The pop behind it. -/
theorem step_handedOver (s : Service) : step (handedOver s) .pop = some { s with
    ring := myfree s.ring
    posting := s.posting - 1
    popped := s.popped ++ [topFrame s.ring] } := by
  have hw : 0 < (handedOver s).waited := Nat.succ_pos _
  rw [step, if_pos hw]
  rfl

/-- The state behind a push. -/
theorem step_push {s t : Service} {fuel : Nat} {f : Frame} (h : step s (.push fuel f) = some t) :
    ∃ r, pushFrame fuel s.ring f = some r ∧
      t = { s with ring := r, posting := s.posting + 1, pushed := s.pushed ++ [f] } := by
  rw [step] at h
  obtain ⟨r, hr, he⟩ := Option.map_eq_some_iff.mp h
  exact ⟨r, hr, he.symm⟩

def smallFrame : Frame := blankFrame 1000 (by decide)

theorem frames_in_order_onePop :
    ∃ t, Reach step Orderly .initial t ∧ t.popped = [smallFrame.bytes] ∧ t.stored = [] := by
  have hsize : smallFrame.info.size.toNat = 1000 := size_blankFrame _
  have ho : Orderly .initial (.push 3 smallFrame) :=
    ⟨by rw [hsize]; decide, fits_initial (by rw [length_frame, hsize]; decide) _⟩
  obtain ⟨s, hs⟩ := (frames_in_order .start).2.1 3 smallFrame ho (by decide)
  obtain ⟨gone, kept, hq, hst, -⟩ := (frames_in_order .start).2.2.1 3 smallFrame s ho hs
  obtain ⟨rfl, rfl⟩ := List.append_eq_nil_iff.mp hq.symm
  obtain ⟨r, -, he⟩ := step_push hs
  have hpost : 0 < s.posting := by rw [he]; exact Nat.succ_pos _
  have hnone : s.popped = [] := by rw [he]; rfl
  have h₁ := reach_handedOver (.next .start ho hs) hpost fun _ => ⟨trivial, trivial⟩
  have hst' : (handedOver s).stored = [smallFrame] := hst
  have hp : Orderly (handedOver s) .pop := fun e => by cases hst'.symm.trans e
  obtain ⟨f, hf, hpop, -⟩ := (frames_in_order h₁).2.2.2 _ hp (step_handedOver s)
  obtain ⟨rfl, hrest⟩ := List.cons.inj (hst'.symm.trans hf)
  exact ⟨_, h₁.next hp (step_handedOver s), by rw [hpop]; exact congrArg (· ++ _) hnone, hrest.symm⟩

/-- `myallocate` over the wrap with an empty ring: the reader stays where it was, at the new end. -/
theorem myallocate_astray (fuel size : Nat) {r : Ring} (hr : r.readPos = r.writePos)
    (hs : maxMemory < r.writePos + size) (hw : size + 1 < r.writePos) (hm : size ≤ maxMemory) :
    myallocate (fuel + 2) r size =
      some ({ r with bufferEndPos := r.writePos, writePos := 0 + (size + 1) }, 0) := by
  have he : wrap r = { r with bufferEndPos := r.writePos, writePos := 0 } := by
    rw [wrap]
    exact if_neg (by show ¬0 = r.readPos; omega)
  have hroom : makeRoom fuel (wrap r) size = some (wrap r) := by
    rw [he]
    exact if_neg (by show ¬(0 < r.readPos ∧ r.readPos ≤ 0 + size + 1); omega)
  rw [myallocate_over (Nat.le_of_eq hr) hs, myallocate, hroom, Option.bind_eq_bind, Option.bind_some, he]
  exact if_neg (by show ¬maxMemory < 0 + size; omega)

/-- The size of a frame is in the limits of the buffer. -/
def Limited (_ : Service) : Event → Prop
  | .push _ f => sizeofFrameInfo + f.info.size.toNat + 1 ≤ maxMemory
  | _ => True

theorem limited_push {f : Frame} (hf : f.bytes.length + 1 ≤ maxMemory) (s : Service) (fuel : Nat) :
    Limited s (.push fuel f) := by
  rwa [length_frame] at hf

section

variable {ok : Service → Event → Prop} {s₀ s : Service} {r : Ring}

theorem reach_push {fuel : Nat} {f : Frame} (h : Reach step ok s₀ s) (ho : ok s (.push fuel f))
    (hr : pushFrame fuel s.ring f = some r) :
    Reach step ok s₀ { s with ring := r, posting := s.posting + 1, pushed := s.pushed ++ [f] } :=
  h.next ho (by rw [step, hr]; rfl)

theorem reach_pop (h : Reach step ok s₀ s) (hp : 0 < s.posting) (hok : ∀ s, ok s .post ∧ ok s .wait ∧ ok s .pop)
    (hr : myfree s.ring = r) : Reach step ok s₀ { s with
      ring := r
      posting := s.posting - 1
      popped := s.popped ++ [topFrame s.ring] } := by
  subst hr
  have hh := reach_handedOver h hp fun s => ⟨(hok s).1, (hok s).2.1⟩
  exact hh.next (hok _).2.2 (step_handedOver s)

end

/-- The ring with a first frame. -/
def firstRing (f : Frame) : Ring := ⟨Mem.store (fun _ => 0) 0 f.bytes, 0, f.bytes.length + 1, maxMemory, []⟩

/-- The ring with the first frame popped. -/
def emptiedRing (f : Frame) : Ring := { firstRing f with readPos := f.bytes.length + 1, freed := [f.bytes] }

/-- The ring with a second frame at the beginning and the reader behind the first one. -/
def astrayRing (f g : Frame) : Ring where
  buffer := (firstRing f).buffer.store 0 g.bytes
  readPos := f.bytes.length + 1
  writePos := g.bytes.length + 1
  bufferEndPos := f.bytes.length + 1
  freed := [f.bytes]

section

variable {f g : Frame}

theorem myallocate_first (hf : f.bytes.length ≤ maxMemory) :
    myallocate 1 .initial f.bytes.length = some ({ Ring.initial with writePos := f.bytes.length + 1 }, 0) := by
  rw [myallocate_behind 0 f.bytes.length (r := .initial) (Nat.le_refl 0) (show 0 + f.bytes.length ≤ maxMemory by omega)]
  simp only [Ring.initial, Nat.zero_add]

theorem pushFrame_first (hf : f.bytes.length ≤ maxMemory) : pushFrame 1 .initial f = some (firstRing f) := by
  rw [pushFrame_eq hf (myallocate_first hf)]
  rfl

theorem myfree_first (hf : f.bytes.length + 1 < maxMemory) : myfree (firstRing f) = emptiedRing f := by
  have hs : span Frame.bytes 1 f = f.bytes.length + 1 := rfl
  obtain ⟨-, hm⟩ := myfree_eq (r := firstRing f) (Mem.load_store _ 0 f.bytes) (by omega)
  rw [hm, if_neg (by show ¬maxMemory ≤ 0 + span Frame.bytes 1 f; omega), emptiedRing, firstRing, hs, Nat.zero_add]
  rfl

theorem myallocate_emptied (hg : g.bytes.length < f.bytes.length) (hf : f.bytes.length + 1 < maxMemory)
    (hs : maxMemory < f.bytes.length + 1 + g.bytes.length) : myallocate 2 (emptiedRing f) g.bytes.length =
      some ({ emptiedRing f with bufferEndPos := f.bytes.length + 1, writePos := g.bytes.length + 1 }, 0) := by
  rw [myallocate_astray 0 g.bytes.length (r := emptiedRing f) rfl hs (by show _ < f.bytes.length + 1; omega) (by omega),
    Nat.zero_add]
  rfl

theorem pushFrame_astray (hg : g.bytes.length < f.bytes.length) (hf : f.bytes.length + 1 < maxMemory)
    (hs : maxMemory < f.bytes.length + 1 + g.bytes.length) : pushFrame 2 (emptiedRing f) g = some (astrayRing f g) := by
  rw [pushFrame_eq (by omega) (myallocate_emptied hg hf hs)]
  rfl

/-- What lies behind the first frame has never been written. -/
theorem sizeAt_astray (hg : g.bytes.length < f.bytes.length) {x : Nat} (hx : f.bytes.length ≤ x) :
    sizeAt (astrayRing f g).buffer x = 0 := by
  show valueOf (((Mem.store _ 0 f.bytes).store 0 g.bytes).load (x + sizeOffset) 4) = 0
  rw [Mem.load_store_outside (.inr (by omega)), Mem.load_store_outside (.inr (by omega))]
  rfl

theorem length_astray (hg : g.bytes.length < f.bytes.length) :
    (topFrame (astrayRing f g)).length = sizeofFrameInfo := by
  have hz : sizeAt (astrayRing f g).buffer (astrayRing f g).readPos = 0 := sizeAt_astray hg (Nat.le_succ _)
  rw [topFrame, hz, Mem.length_load]
  rfl

/-- A frame is pushed and popped and another one pushed over the wrap: the pop
returns what lies behind the first one, an empty frame. -/
theorem frame_astray (hf : f.bytes.length + 1 < maxMemory) (hg : g.bytes.length < f.bytes.length)
    (hs : maxMemory < f.bytes.length + 1 + g.bytes.length) : ∃ s t, Reach step Limited .initial s ∧ s.stored = [g] ∧
      step s .pop = some t ∧ ∃ bytes, t.popped = s.popped ++ [bytes] ∧ bytes.length = sizeofFrameInfo := by
  have hf' : f.bytes.length + 1 ≤ maxMemory := Nat.le_of_lt hf
  have hg' : g.bytes.length + 1 ≤ maxMemory := by omega
  have h₁ := reach_push (s := .initial) .start (limited_push hf' _ _) (pushFrame_first (Nat.le_of_succ_le hf'))
  have h₂ := reach_pop h₁ (Nat.succ_pos _) (fun _ => ⟨trivial, trivial, trivial⟩) (myfree_first hf)
  have h₃ := reach_push h₂ (limited_push hg' _ _) (pushFrame_astray hg hf hs)
  exact ⟨_, _, reach_handedOver h₃ (Nat.succ_pos _) fun _ => ⟨trivial, trivial⟩, rfl, step_handedOver _, _, rfl,
    length_astray hg⟩

end

/-- A frame that takes three quarters of the buffer. -/
def largeFrame : Frame := blankFrame 1572828 (by decide)

/-- A frame that takes half of the buffer. -/
def halfFrame : Frame := blankFrame 1048540 (by decide)

theorem length_largeFrame : largeFrame.bytes.length = 1572864 := by
  rw [length_frame, largeFrame, size_blankFrame, sizeofFrameInfo]

theorem length_halfFrame : halfFrame.bytes.length = 1048576 := by
  rw [length_frame, halfFrame, size_blankFrame, sizeofFrameInfo]

/-- The frame pushed last is not the one that is popped. -/
theorem frame_lost_at_wrap : ∃ s t, Reach step Limited .initial s ∧ s.stored = [halfFrame] ∧
    step s .pop = some t ∧ ∃ bytes, t.popped = s.popped ++ [bytes] ∧ bytes ≠ halfFrame.bytes := by
  have hlarge := length_largeFrame
  have hhalf := length_halfFrame
  obtain ⟨s, t, hr, hst, ht, bytes, hp, hl⟩ := frame_astray (f := largeFrame) (g := halfFrame)
    (by rw [hlarge]; decide) (by rw [hlarge, hhalf]; decide) (by rw [hlarge, hhalf]; decide)
  refine ⟨s, t, hr, hst, ht, bytes, hp, fun e => ?_⟩
  rw [e, hhalf] at hl
  exact absurd hl (by decide)

end XH.Proof.Camera
