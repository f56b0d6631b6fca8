import Xhome.Proof.Camera.Fifo

/-!
# The semaphore and the frames

`full` counts the posts that no pop has waited for. A frame that `myallocate`
discards leaves the ring without a wait, so the count stays too high from then
on (`discard_not_counted`), and the writer that starts over in an empty ring
leaves the reader behind the frames. In every run whose pushes find room with
neither (`Spares`) the frames lie one behind the other in the ring and the count
is their number (`semaphore_counts_frames`).
-/

namespace XH.Proof.Camera

open XH.Impl.Camera

/-- The frame fits behind `write_pos` and in front of the reader, or at the
beginning in front of the reader, who has not read everything. -/
def Spares (r : Ring) (size : Nat) : Prop :=
  (r.writePos < r.readPos → r.writePos + size + 1 < r.readPos) ∧
    (r.writePos + size ≤ maxMemory ∨ size + 1 < r.readPos ∧ r.readPos ≠ r.writePos)

/-- Nothing has to be discarded, and an empty ring is not left. -/
theorem Spares.fits {r : Ring} {q : List Frame} {size : Nat} (h : Layout r q) (hs : Spares r size) : Fits r q size := by
  obtain ⟨hroom, hend⟩ := hs
  cases h with
  | straight q h hw he =>
    have hle : r.readPos ≤ r.writePos := h.le
    rcases hend with hend | ⟨hlt, hne⟩
    · exact .inl ⟨hle, hend⟩
    · obtain ⟨f, q, rfl⟩ : ∃ f q', q = f :: q' := List.exists_cons_of_ne_nil fun e => by
        rw [e] at h
        exact hne h
      exact .inr (.inr (.inl ⟨hle, r.readPos, List.mem_cons_self, hlt⟩))
  | wrapped old new h ho hold hnew he =>
    obtain ⟨f, old, rfl⟩ := List.exists_cons_of_ne_nil ho
    have hpos := span_pos f
    have hle := hold.2.le
    exact .inr (.inl ⟨h, r.readPos, List.mem_cons_self, by omega, hroom h⟩)
  | parked hr hw =>
    rcases hend with hend | ⟨hlt, -⟩
    · exact .inl ⟨by omega, hend⟩
    · omega

theorem Spares.le {r : Ring} {q : List Frame} {size : Nat} (h : Layout r q) (hs : Spares r size) : size ≤ maxMemory := by
  rcases hs.2 with hend | ⟨hlt, -⟩
  · omega
  · have hr : r.readPos ≤ maxMemory + 1 := by
      cases h with
      | straight q h hw he => exact Nat.le_trans h.le hw
      | wrapped old new h ho hold hnew he => exact Nat.le_trans hold.le he
      | parked hr hw => omega
    omega

theorem makeRoom_spares {fuel size : Nat} {r : Ring} (h : r.writePos < r.readPos → r.writePos + size + 1 < r.readPos) :
    makeRoom fuel r size = some r :=
  if_neg fun ⟨hw, hr⟩ => absurd (h hw) (by omega)

/-- No frame is discarded where the new one has room. -/
theorem myallocate_spares {size : Nat} : ∀ {fuel : Nat} {r r' : Ring} {p : Nat}, Spares r size →
    myallocate fuel r size = some (r', p) → r'.freed = r.freed
  | 0, _, _, _, _, h => by cases h
  | fuel + 1, r, r', p, hs, h => by
    simp only [myallocate, makeRoom_spares hs.1, Option.bind_eq_bind, Option.bind_some] at h
    split at h
    · rename_i hlt
      obtain ⟨hr, hne⟩ : size + 1 < r.readPos ∧ r.readPos ≠ r.writePos := hs.2.resolve_left (by omega)
      have he : wrap r = { r with bufferEndPos := r.writePos, writePos := 0 } := by
        rw [wrap]
        exact if_neg (by show ¬0 = r.readPos; omega)
      have hs' : Spares (wrap r) size := by
        rw [he]
        exact ⟨fun _ => (by show 0 + size + 1 < r.readPos; omega), .inr ⟨hr, fun e : r.readPos = 0 => by omega⟩⟩
      rw [myallocate_spares hs' h, he]
    · cases h
      rfl

theorem pushFrame_spares {fuel : Nat} {r r' : Ring} {f : Frame} (hm : f.bytes.length ≤ maxMemory)
    (hs : Spares r f.bytes.length) (h : pushFrame fuel r f = some r') : r'.freed = r.freed := by
  rw [pushFrame, u32_length hm] at h
  obtain ⟨⟨r'', p⟩, ha, he⟩ := Option.bind_eq_some_iff.mp h
  have hf := myallocate_spares hs ha
  cases he
  exact hf

theorem length_freed_myfree (r : Ring) : (myfree r).freed.length = r.freed.length + 1 := by
  rw [myfree]
  split <;> simp

/-- Every frame pushed has left the ring, or has its post, or is waited for. -/
def Balanced (s : Service) : Prop := s.ring.freed.length + s.full + s.posting + s.waited = s.pushed.length

/-- A push finds room. -/
def Unhurried (s : Service) : Event → Prop
  | .push _ f => Spares s.ring f.bytes.length
  | _ => True

/-- A pop that has waited finds a frame. -/
theorem Balanced.stored_ne_nil {s : Service} (h : Balanced s) (hw : 0 < s.waited) : s.stored ≠ [] := fun e => by
  have hl : s.stored.length = s.pushed.length - s.ring.freed.length := List.length_drop
  rw [Balanced] at h
  rw [e, List.length_nil] at hl
  omega

theorem Balanced.fitting {s t : Service} {e : Event} (h : Balanced s) (hi : InOrder s) (ho : Unhurried s e)
    (ht : step s e = some t) : Fitting s e := by
  cases e with
  | push fuel f => exact ⟨Spares.le hi.layout ho, Spares.fits hi.layout ho⟩
  | post => trivial
  | wait => trivial
  | pop =>
    rw [step] at ht
    split at ht
    · rename_i hw
      exact h.stored_ne_nil hw
    · cases ht

theorem balanced_step {s t : Service} {e : Event} (h : Balanced s) (hi : InOrder s) (ho : Unhurried s e)
    (ht : step s e = some t) : Balanced t := by
  rw [Balanced] at h
  cases e with
  | push fuel f =>
    obtain ⟨r, hr, rfl⟩ := step_push ht
    have hf := pushFrame_spares (Spares.le hi.layout ho) ho hr
    show r.freed.length + s.full + (s.posting + 1) + s.waited = (s.pushed ++ [f]).length
    rw [hf, List.length_append, List.length_singleton]
    omega
  | post =>
    rw [step] at ht
    split at ht <;> cases ht
    show s.ring.freed.length + (s.full + 1) + (s.posting - 1) + s.waited = s.pushed.length
    omega
  | wait =>
    rw [step] at ht
    split at ht <;> cases ht
    show s.ring.freed.length + (s.full - 1) + s.posting + (s.waited + 1) = s.pushed.length
    omega
  | pop =>
    rw [step] at ht
    split at ht <;> cases ht
    show (myfree s.ring).freed.length + s.full + s.posting + (s.waited - 1) = s.pushed.length
    rw [length_freed_myfree]
    omega

theorem balanced_run {s : Service} (h : Reach step Unhurried .initial s) : Balanced s ∧ InOrder s :=
  Reach.invariant (fun s => Balanced s ∧ InOrder s) ⟨show Balanced .initial from rfl, inOrder_initial⟩ (fun _ _ _ hi ho ht =>
    ⟨balanced_step hi.1 hi.2 ho ht, hi.2.step (hi.1.fitting hi.2 ho ht) ht⟩) h

/-- In every run whose pushes find room: the frames that have been neither popped
nor discarded lie in the ring, one behind the other; when nothing is under way the
semaphore is their number, and a pop that has waited finds a frame. -/
theorem semaphore_counts_frames {s : Service} (h : Reach step Unhurried .initial s) :
    Layout s.ring s.stored ∧ (s.posting = 0 → s.waited = 0 → s.full = s.stored.length) ∧
      (0 < s.waited → s.stored ≠ []) := by
  obtain ⟨hb, hi⟩ := balanced_run h
  refine ⟨hi.layout, fun hp hw => ?_, hb.stored_ne_nil⟩
  have hl : s.stored.length = s.pushed.length - s.ring.freed.length := List.length_drop
  rw [Balanced] at hb
  omega

/-- Two pushes of a frame that fits twice. -/
theorem reach_twoPushes {f : Frame} (h : f.bytes.length + 1 + f.bytes.length ≤ maxMemory) :
    ∃ s, Reach step Unhurried .initial s ∧ s.posting = 0 ∧ s.waited = 0 ∧ s.pushed = [f, f] := by
  have hm : f.bytes.length ≤ maxMemory := by omega
  have ho : ∀ s : Service, s.ring.readPos = 0 → s.ring.writePos ≤ f.bytes.length + 1 →
      Unhurried s (.push 1 f) := by
    intro s hr hw
    show Spares s.ring _
    exact ⟨fun hlt => by omega, .inl (by omega)⟩
  have h₁ := reach_push (s := .initial) .start (ho _ rfl (Nat.zero_le _)) (pushFrame_first hm)
  have h₂ := reach_push h₁ (ho _ rfl (Nat.le_refl _))
    (pushFrame_eq hm (myallocate_behind 0 _ (r := firstRing f) (Nat.zero_le _) h))
  exact ⟨_, (h₂.next (e := Event.post) trivial rfl).next (e := Event.post) trivial rfl, rfl, rfl, rfl⟩

theorem semaphore_counts_frames_twoPushes : ∃ s, Reach step Unhurried .initial s ∧ s.posting = 0 ∧ s.waited = 0 ∧
    s.pushed = [smallFrame, smallFrame] ∧ s.full = s.stored.length := by
  have hl : smallFrame.bytes.length = 1036 := by
    rw [length_frame, smallFrame, size_blankFrame, sizeofFrameInfo]
  obtain ⟨s, h, hp, hw, hs⟩ := reach_twoPushes (f := smallFrame) (by rw [hl]; decide)
  exact ⟨s, h, hp, hw, hs, (semaphore_counts_frames h).2.1 hp hw⟩

/-- The ring with a second frame in the place of the first one. -/
def replacedRing (f g : Frame) : Ring :=
  ⟨(firstRing f).buffer.store 0 g.bytes, 0, g.bytes.length + 1, maxMemory, [f.bytes]⟩

theorem pushFrame_replaced {f g : Frame} (hf : f.bytes.length + 1 ≤ maxMemory) (hg : g.bytes.length + 1 ≤ maxMemory)
    (hs : maxMemory < f.bytes.length + 1 + g.bytes.length) : pushFrame 2 (firstRing f) g = some (replacedRing f g) := by
  have hlaid : FramesAt (firstRing f).buffer (firstRing f).readPos [f] (firstRing f).writePos :=
    ⟨Mem.load_store _ 0 f.bytes, Nat.zero_add _⟩
  have hw := wrap_single hlaid (Nat.le_trans hf (Nat.le_succ _)) rfl
  have ha : myallocate 2 (firstRing f) g.bytes.length = some ({ wrap (firstRing f) with
      writePos := (wrap (firstRing f)).writePos + (g.bytes.length + 1) }, (wrap (firstRing f)).writePos) := by
    rw [myallocate_over (Nat.zero_le _) hs]
    exact myallocate_behind _ _ (by rw [hw]) (by rw [hw]; show 0 + _ ≤ _; omega)
  rw [pushFrame_eq (Nat.le_of_succ_le hg) ha, hw, replacedRing]
  simp only [Nat.zero_add]
  rfl

/-- Two frames that do not fit together: the second push discards the first
frame, the semaphore counts both, and the second pop finds the ring empty. -/
theorem discard_not_counted :
    (∃ s, Reach step Limited .initial s ∧ s.posting = 0 ∧ s.waited = 0 ∧ s.full = 2 ∧ s.stored = [halfFrame]) ∧
    ∃ s, Reach step Limited .initial s ∧ 0 < s.waited ∧ s.stored = [] := by
  have hlarge : largeFrame.bytes.length + 1 ≤ maxMemory := by rw [length_largeFrame]; decide
  have hhalf : halfFrame.bytes.length + 1 ≤ maxMemory := by rw [length_halfFrame]; decide
  have h₁ := reach_push (s := .initial) .start (limited_push hlarge _ _)
    (pushFrame_first (Nat.le_trans (Nat.le_add_right _ 1) hlarge))
  have h₂ := reach_push h₁ (limited_push hhalf _ _)
    (pushFrame_replaced hlarge hhalf (by rw [length_largeFrame, length_halfFrame]; decide))
  refine ⟨⟨_, (h₂.next (e := Event.post) trivial rfl).next (e := Event.post) trivial rfl, rfl, rfl, rfl, rfl⟩, ?_⟩
  have h₃ := reach_pop h₂ (Nat.succ_pos _) (fun _ => ⟨trivial, trivial, trivial⟩) rfl
  have h₄ := reach_handedOver h₃ Nat.one_pos fun _ => ⟨trivial, trivial⟩
  refine ⟨_, h₄, Nat.succ_pos _, ?_⟩
  show [largeFrame, halfFrame].drop (myfree (replacedRing largeFrame halfFrame)).freed.length = []
  rw [length_freed_myfree]
  rfl

end XH.Proof.Camera
