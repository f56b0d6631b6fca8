import Xhome.Proof.Camera.Fifo

/-!
# Where the frames are put

Each frame pushed is kept with its place (`Placed`). In every run whose pushes
fit and whose pops find a frame, `myallocate` gives a place in the buffer that
meets no stored frame, and it discards the oldest frames that begin in it
(`allocation_sound`); and a push that fits returns (`pushFrame_returns`). A
reader astray makes it discard a frame elsewhere (`frame_discarded_elsewhere`),
and a frame larger than the buffer never finds a place (`pushFrame_endless`).
-/

namespace XH.Proof.Camera

open XH.Impl.Camera

/-- The service, with the place of each frame pushed. -/
structure Placed where
  service : Service
  places : List (Nat × Frame)

def Placed.initial : Placed := ⟨.initial, []⟩

def placeStep (s : Placed) : Event → Option Placed
  | .push fuel f => do
    let service ← step s.service (.push fuel f)
    let (_, waddress) ← myallocate fuel s.service.ring (u32 (sizeofFrameInfo + f.info.size.toNat))
    some ⟨service, s.places ++ [(waddress, f)]⟩
  | e => (step s.service e).map fun service => ⟨service, s.places⟩

/-- The frames that have been neither popped nor discarded, in their places. -/
def Placed.stored (s : Placed) : List (Nat × Frame) := s.places.drop s.service.ring.freed.length

/-- `[p, p + size)` lies in the buffer and meets no stored frame that is kept;
the discarded frames are the oldest ones, and they begin in the place of the
new frame and the byte behind it. -/
structure Sound (r : Ring) (stored : List (Nat × Frame)) (size : Nat) (r' : Ring) (p : Nat) : Prop where
  inside : p + size ≤ maxMemory
  discarded : ∃ gone kept, stored = gone ++ kept ∧ r'.freed = r.freed ++ gone.map (Frame.bytes ∘ Prod.snd) ∧
    (∀ x ∈ gone, p ≤ x.1 ∧ x.1 ≤ p + size + 1) ∧ ∀ x ∈ kept, p + size ≤ x.1 ∨ x.1 + x.2.bytes.length ≤ p

/-! ## Places -/

theorem map_places (e p : Nat) (fs : List Frame) : (places e p fs).map Prod.snd = fs := by
  induction fs generalizing p with
  | nil => rfl
  | cons f fs ih => rw [places, List.map_cons, ih]

theorem zip_within {m : Mem} {p c : Nat} {fs : List Frame} {x : Nat × Frame} (h : FramesAt m p fs c)
    (hx : x ∈ (starts p fs).zip fs) : p ≤ x.1 ∧ x.1 + span Frame.bytes 1 x.2 ≤ c := by
  induction fs generalizing p with
  | nil => cases hx
  | cons f fs ih =>
    rcases List.mem_cons.mp hx with rfl | hx
    · exact ⟨Nat.le_refl _, h.2.le⟩
    · obtain ⟨h₁, h₂⟩ := ih h.2 hx
      exact ⟨Nat.le_trans (Nat.le_add_right _ _) h₁, h₂⟩

/-- The newest frame lies in front of `write_pos` and meets no other. -/
theorem Layout.places_last {r : Ring} {q : List Frame} {f : Frame} (h : Layout r (q ++ [f])) (hw : 0 < r.writePos) :
    ∃ p, p + span Frame.bytes 1 f = r.writePos ∧ placesIn r (q ++ [f]) = placesIn r q ++ [(p, f)] ∧
      ∀ x ∈ placesIn r q, r.writePos ≤ x.1 ∨ x.1 + x.2.bytes.length ≤ p := by
  have hf := span_frame f
  generalize hq : q ++ [f] = qf at h
  cases h with
  | straight _ h hm he =>
    subst hq
    obtain ⟨c, hl, -, hc⟩ := h.split
    have hc : c + span Frame.bytes 1 f = r.writePos := hc
    rw [sizeofFrameInfo] at hf
    have hlt : c < r.bufferEndPos := by omega
    have hp : placesIn r q = (starts r.readPos q).zip q := places_straight hl (by omega)
    refine ⟨c, hc, ?_, fun x hx => ?_⟩
    · rw [hp]
      exact places_append hl (fun x hx => by have := lt_of_mem_starts hl hx; omega) (.inl ⟨hlt, rfl⟩)
    · rw [hp] at hx
      have := (zip_within hl hx).2
      rw [span] at this
      exact .inr (by omega)
  | wrapped old new h ho hold hnew he =>
    rcases List.eq_nil_or_concat new with rfl | ⟨new, g, rfl⟩
    · obtain hz : 0 = r.writePos := hnew
      omega
    rw [List.concat_eq_append] at hnew hq ⊢
    rw [← List.append_assoc] at hq
    obtain ⟨rfl, hg⟩ := List.append_inj' hq rfl
    obtain rfl := List.singleton_inj.mp hg
    obtain ⟨c, hl, -, hc⟩ := hnew.split
    have hc : c + span Frame.bytes 1 f = r.writePos := hc
    have hle := hold.le
    have hp : ∀ gs, placesIn r (old ++ gs) = (starts r.readPos old).zip old ++ places r.bufferEndPos 0 gs := fun gs =>
      places_append hold (fun x hx => by have := lt_of_mem_starts hold hx; omega) (.inr (.inl ⟨rfl, ho, rfl⟩))
    have hn : ∀ x ∈ starts 0 new, x < r.bufferEndPos := fun x hx => by have := lt_of_mem_starts hl hx; omega
    have hpn : places r.bufferEndPos 0 new = (starts 0 new).zip new := places_straight hl (by omega)
    refine ⟨c, hc, ?_, fun x hx => ?_⟩
    · rw [hp, hp, places_append hl hn (.inl ⟨by omega, rfl⟩), hpn, ← List.append_assoc]
      rfl
    · rw [hp, hpn] at hx
      rcases List.mem_append.mp hx with hx | hx
      · have := (zip_within hold hx).1
        exact .inl (by omega)
      · have := (zip_within hl hx).2
        rw [span] at this
        exact .inr (by omega)
  | parked hr hw' => exact absurd hq (by simp)

/-- The frames behind the oldest one stay in their places. -/
theorem places_myfree {r : Ring} {f : Frame} {q : List Frame} (h : Layout r (f :: q)) :
    placesIn r (f :: q) = (r.readPos, f) :: placesIn (myfree r) q := by
  generalize hq : f :: q = fq at h
  cases h with
  | straight _ h hw he =>
    subst hq
    have hle := h.2.le
    obtain ⟨-, hm⟩ := myfree_eq h.1 (by have := span_frame f; omega)
    rw [hm, placesIn, places, he]
    split <;> rfl
  | wrapped old new h ho hold hnew he =>
    obtain ⟨g, old, rfl⟩ := List.exists_cons_of_ne_nil ho
    obtain ⟨rfl, rfl⟩ := List.cons.inj hq
    obtain ⟨-, h₁, h₂⟩ := myfree_wrapped hold he
    have hend := hold.2
    rcases old with _ | ⟨g, old⟩
    · -- the last one in front of the end
      have hend : r.readPos + span Frame.bytes 1 f = r.bufferEndPos := hend
      rw [h₁ rfl, List.cons_append, placesIn, places, if_pos (Nat.le_of_eq hend.symm), List.nil_append]
      have hmax : r.writePos ≤ maxMemory + sizeofFrameInfo := by omega
      exact congrArg _ ((places_straight hnew (by omega)).trans (places_straight hnew hmax).symm)
    · have := hend.2.le
      have := span_pos g
      rw [h₂ (by simp), List.cons_append, placesIn, places, if_neg (by omega)]
      rfl
  | parked hr hw => cases hq

/-! ## Allocating -/

/-- A place that is given lies in the buffer, and the writer is behind it. -/
theorem myallocate_inside {size : Nat} : ∀ {fuel : Nat} {r r' : Ring} {p : Nat}, myallocate fuel r size = some (r', p) →
    r'.writePos = p + (size + 1) ∧ p + size ≤ maxMemory
  | 0, _, _, _, h => by cases h
  | fuel + 1, r, r', p, h => by
    rw [myallocate] at h
    obtain ⟨r₁, -, h⟩ := Option.bind_eq_some_iff.mp h
    split at h
    · exact myallocate_inside h
    · cases h
      exact ⟨rfl, Nat.not_lt.mp ‹_›⟩

/-- A place for a frame that fits, and the places of the frames behind the push. -/
theorem myallocate_sound {fuel : Nat} {r r' : Ring} {q : List Frame} {f : Frame} {p : Nat} (h : Layout r q)
    (hm : f.bytes.length ≤ maxMemory) (hf : Fits r q f.bytes.length)
    (ha : myallocate fuel r f.bytes.length = some (r', p)) : Sound r (placesIn r q) f.bytes.length r' p ∧
      placesIn { r' with buffer := r'.buffer.store p f.bytes } (q.drop (r'.freed.length - r.freed.length) ++ [f]) =
        (placesIn r q).drop (r'.freed.length - r.freed.length) ++ [(p, f)] := by
  have hpos : 0 < f.bytes.length := by rw [length_frame, sizeofFrameInfo]; omega
  obtain ⟨hw, hin⟩ := myallocate_inside ha
  have hpl := (myallocate_fits fuel _ h hpos hm hf).1 r' p ha
  obtain ⟨gone, kept, rfl, hfr, hlay⟩ := hpl.frames
  obtain ⟨k, hk, hd, hn⟩ := hpl.places
  have hlen : r'.freed.length - r.freed.length = gone.length := by
    rw [hfr, List.length_append, List.length_map, Nat.add_sub_cancel_left]
  obtain rfl : k = gone.length := by omega
  rw [List.drop_left] at hd
  obtain ⟨c, hc, hlast, hapart⟩ := (hlay f rfl).places_last (by show 0 < r'.writePos; omega)
  obtain rfl : p = c := by
    have hc' : c + span Frame.bytes 1 f = r'.writePos := hc
    rw [span] at hc'
    omega
  have hsplit : placesIn r (gone ++ kept) = (placesIn r (gone ++ kept)).take gone.length ++ placesIn r' kept := by
    rw [hd, List.take_append_drop]
  refine ⟨⟨hin, _, _, hsplit, ?_, hn, fun x hx => ?_⟩, ?_⟩
  · rw [hfr, ← List.map_map, List.map_take, map_places, List.take_left]
  · rcases hapart x hx with h | h
    · exact .inl (by have h' : r'.writePos ≤ x.1 := h; omega)
    · exact .inr h
  · rw [hlen, List.drop_left, ← hd]
    exact hlast

/-! ## Runs -/

/-- The stored frames lie where they were put. -/
def InPlace (s : Placed) : Prop :=
  InOrder s.service ∧ s.places.map Prod.snd = s.service.pushed ∧ s.stored = placesIn s.service.ring s.service.stored

/-- What a push of a frame that fits does. -/
theorem placeStep_push {s t : Placed} {fuel : Nat} {f : Frame} (hm : f.bytes.length ≤ maxMemory)
    (ht : placeStep s (.push fuel f) = some t) : ∃ r p, myallocate fuel s.service.ring f.bytes.length = some (r, p) ∧
      step s.service (.push fuel f) = some t.service ∧ t.places = s.places ++ [(p, f)] ∧
      t.service.ring = { r with buffer := r.buffer.store p f.bytes } := by
  rw [placeStep] at ht
  obtain ⟨service, hs, ht⟩ := Option.bind_eq_some_iff.mp ht
  obtain ⟨⟨r, p⟩, ha, ht⟩ := Option.bind_eq_some_iff.mp ht
  cases ht
  rw [u32_length hm] at ha
  obtain ⟨r', hr, rfl⟩ := step_push hs
  cases (pushFrame_eq hm ha).symm.trans hr
  exact ⟨r, p, ha, hs, rfl, rfl⟩

theorem InPlace.push {s t : Placed} (h : InPlace s) {fuel : Nat} {f : Frame} (ho : Fitting s.service (.push fuel f))
    (ht : placeStep s (.push fuel f) = some t) : InPlace t := by
  obtain ⟨r, p, ha, hs, hp, hr⟩ := placeStep_push ho.1 ht
  obtain ⟨hi, hpushed, hstored⟩ := h
  obtain ⟨hi', gone, kept, hq, hk, hfr⟩ := (hi.push ho).2 _ hs
  obtain ⟨-, hplaces⟩ := myallocate_sound hi.layout ho.1 ho.2 ha
  have hfr' : r.freed = s.service.ring.freed ++ gone.map Frame.bytes := by rw [← hfr, hr]
  rw [hfr', List.length_append, List.length_map, Nat.add_sub_cancel_left, hq, List.drop_left, ← hq] at hplaces
  refine ⟨hi', ?_, ?_⟩
  · obtain ⟨r', -, ht'⟩ := step_push hs
    rw [hp, List.map_append, hpushed, ht']
    rfl
  · have hall : s.places.length = s.service.ring.freed.length + s.service.stored.length := by
      have := congrArg List.length hi.pushed_eq
      rwa [← hpushed, List.length_append, List.length_map, List.length_map, List.length_map] at this
    have hle : s.service.ring.freed.length + gone.length ≤ s.places.length := by
      rw [hall, hq, List.length_append]
      omega
    rw [Placed.stored, hp, hfr, List.length_append, List.length_map, List.drop_append_of_le_length hle,
      ← List.drop_drop, hk, hr, hplaces, ← hstored]
    rfl

theorem InPlace.pop {s t : Placed} (h : InPlace s) (ho : Fitting s.service .pop) (ht : placeStep s .pop = some t) :
    InPlace t := by
  obtain ⟨hi, hpushed, hstored⟩ := h
  obtain ⟨service, hs, rfl⟩ := Option.map_eq_some_iff.mp ht
  obtain ⟨hi', f, hst, -, hfr⟩ := hi.pop ho hs
  have hring : service.ring = myfree s.service.ring ∧ service.pushed = s.service.pushed := by
    rw [step] at hs
    split at hs <;> cases hs
    exact ⟨rfl, rfl⟩
  have hlay := hi.layout
  rw [hst] at hlay hstored
  rw [places_myfree hlay] at hstored
  refine ⟨hi', hpushed.trans hring.2.symm, ?_⟩
  show s.places.drop service.ring.freed.length = _
  rw [hfr, List.length_append, ← List.drop_drop, hring.1]
  exact congrArg (List.drop 1) hstored

theorem placeStep_eq {s : Placed} {fuel : Nat} {f : Frame} {r : Ring} {p : Nat} (hm : f.bytes.length ≤ maxMemory)
    (ha : myallocate fuel s.service.ring f.bytes.length = some (r, p)) : placeStep s (.push fuel f) = some
      ⟨{ s.service with
          ring := { r with buffer := r.buffer.store p f.bytes }
          posting := s.service.posting + 1
          pushed := s.service.pushed ++ [f] }, s.places ++ [(p, f)]⟩ := by
  rw [placeStep, step, pushFrame_eq hm ha, u32_length hm, ha]
  rfl

theorem placeStep_of_step {s : Placed} {e : Event} {t : Service} (he : ∀ fuel f, e ≠ .push fuel f)
    (h : step s.service e = some t) : placeStep s e = some ⟨t, s.places⟩ := by
  cases e with
  | push fuel f => exact absurd rfl (he fuel f)
  | post => exact congrArg (Option.map _) h
  | wait => exact congrArg (Option.map _) h
  | pop => exact congrArg (Option.map _) h

theorem inPlace_run {s : Placed} (h : Reach placeStep (fun s => Fitting s.service) .initial s) : InPlace s := by
  refine Reach.invariant InPlace ⟨⟨[], [], rfl, rfl, layout_initial⟩, rfl, rfl⟩ (fun s e t hi ho ht => ?_) h
  cases e with
  | push fuel f => exact hi.push ho ht
  | pop => exact hi.pop ho ht
  | post =>
    obtain ⟨service, hs, rfl⟩ := Option.map_eq_some_iff.mp ht
    rw [step] at hs
    split at hs <;> cases hs
    exact hi
  | wait =>
    obtain ⟨service, hs, rfl⟩ := Option.map_eq_some_iff.mp ht
    rw [step] at hs
    split at hs <;> cases hs
    exact hi

/-- In every run whose pushes fit and whose pops find a frame, `myallocate`
gives a frame that fits a place in the buffer that meets no stored frame, and
discards the oldest frames that begin in that place. -/
theorem allocation_sound {s : Placed} (h : Reach placeStep (fun s => Fitting s.service) .initial s) {f : Frame}
    (hm : sizeofFrameInfo + f.info.size.toNat + 1 ≤ maxMemory) (hf : Fits s.service.ring s.service.stored f.bytes.length)
    {fuel : Nat} {r : Ring} {p : Nat} (ha : myallocate fuel s.service.ring f.bytes.length = some (r, p)) :
    Sound s.service.ring s.stored f.bytes.length r p := by
  obtain ⟨hi, -, hstored⟩ := inPlace_run h
  rw [hstored]
  exact (myallocate_sound hi.layout (by rw [length_frame]; omega) hf ha).1

/-- The first frame. -/
def firstPlaced (f : Frame) : Placed :=
  ⟨{ Service.initial with ring := firstRing f, posting := 1, pushed := [f] }, [(0, f)]⟩

theorem placeStep_first {f : Frame} (hm : f.bytes.length ≤ maxMemory) :
    placeStep .initial (.push 1 f) = some (firstPlaced f) := by
  rw [placeStep_eq hm (myallocate_first hm)]
  rfl

/-- A second frame of the same size. -/
theorem fits_second {f : Frame} (h : f.bytes.length + 1 + f.bytes.length ≤ maxMemory) :
    Fits (firstPlaced f).service.ring (firstPlaced f).service.stored f.bytes.length ∧
    ∃ r p, myallocate 1 (firstPlaced f).service.ring f.bytes.length = some (r, p) :=
  ⟨.inl ⟨Nat.zero_le _, h⟩, _, _, myallocate_behind 0 f.bytes.length (r := firstRing f) (Nat.zero_le _) h⟩

theorem allocation_sound_secondFrame : ∃ r p,
    myallocate 1 (firstPlaced smallFrame).service.ring smallFrame.bytes.length = some (r, p) ∧
    Sound (firstPlaced smallFrame).service.ring (firstPlaced smallFrame).stored smallFrame.bytes.length r p := by
  have hl : smallFrame.bytes.length = 1036 := by rw [length_frame, smallFrame, size_blankFrame, sizeofFrameInfo]
  have hm : smallFrame.bytes.length ≤ maxMemory := by rw [hl]; decide
  have h : Reach placeStep (fun s => Fitting s.service) .initial (firstPlaced smallFrame) :=
    .next (e := .push 1 smallFrame) .start ⟨hm, fits_initial hm _⟩ (placeStep_first hm)
  obtain ⟨hf, r, p, ha⟩ := fits_second (f := smallFrame) (by rw [hl]; decide)
  exact ⟨r, p, ha, allocation_sound h (by rw [← length_frame, hl]; decide) hf ha⟩

/-! ## A run of three pushes -/
/-- The post of a push, and a pop that waits for it. -/
theorem reach_placePop {ok : Placed → Event → Prop} {s₀ s : Placed} {r : Ring} (h : Reach placeStep ok s₀ s)
    (hp : 0 < s.service.posting) (hok : ∀ s, ok s .post ∧ ok s .wait ∧ ok s .pop) (hr : myfree s.service.ring = r) :
    Reach placeStep ok s₀ ⟨{ s.service with
      ring := r
      posting := s.service.posting - 1
      popped := s.service.popped ++ [topFrame s.service.ring] }, s.places⟩ := by
  subst hr
  have h₁ : Reach placeStep ok s₀ ⟨{ s.service with
      posting := s.service.posting - 1
      full := s.service.full + 1 }, s.places⟩ :=
    h.next (hok s).1 (placeStep_of_step (fun _ _ => Event.noConfusion) (by rw [step, if_pos hp]))
  have h₂ : Reach placeStep ok s₀ ⟨handedOver s.service, s.places⟩ :=
    h₁.next (hok _).2.1 (placeStep_of_step (fun _ _ => Event.noConfusion) (by rw [step, if_pos (Nat.succ_pos _)]; rfl))
  exact h₂.next (hok _).2.2 (placeStep_of_step (fun _ _ => Event.noConfusion) (step_handedOver s.service))

/-- `myfree` where nothing has been written, at the end and in front of it. -/
theorem myfree_blank (w e : Nat) (freed : List (List Byte)) {m : Mem} {p : Nat} (h : sizeAt m p = 0) :
    ∃ a, (e ≤ p + 37 → myfree ⟨m, p, w, e, freed⟩ = ⟨m, 0, w, maxMemory, freed ++ [a]⟩) ∧
      (p + 37 < e → myfree ⟨m, p, w, e, freed⟩ = ⟨m, p + 37, w, e, freed ++ [a]⟩) := by
  have hu : u32 (sizeofFrameInfo + sizeAt m p + 1) = 37 := by rw [h]; rfl
  refine ⟨topFrame ⟨m, p, w, e, freed⟩, fun hle => ?_, fun hlt => ?_⟩
  · simp only [myfree, hu]
    exact if_pos hle
  · simp only [myfree, hu]
    exact if_neg (Nat.not_le.mpr hlt)

theorem discardWhile_next (fuel : Nat) {r r' : Ring} {size : Nat} (h : r.readPos ≤ r.writePos + size + 1)
    (hr : myfree r = r') : discardWhile (fuel + 1) r size = discardWhile fuel r' size := by
  rw [discardWhile, if_pos h, discardFrame, hr]

/-- The reader astray: the loop comes by the beginning and passes the frame there on its way to the new one. -/
theorem myallocate_elsewhere {f g : Frame} (hg : g.bytes.length + 1 = f.bytes.length)
    (hf : f.bytes.length + 74 < maxMemory) : ∃ r a b c, myallocate 6 (astrayRing f g) 36 = some (r, f.bytes.length) ∧
      r.freed = (astrayRing f g).freed ++ [a] ++ [g.bytes] ++ [b] ++ [c] := by
  have hz : ∀ x, f.bytes.length ≤ x → sizeAt (astrayRing f g).buffer x = 0 := fun _ => sizeAt_astray (by omega)
  obtain ⟨m, hm⟩ : ∃ m, (firstRing f).buffer.store 0 g.bytes = m := ⟨_, rfl⟩
  obtain ⟨n, hn⟩ : ∃ n, f.bytes.length = n := ⟨_, rfl⟩
  have hr : astrayRing f g = ⟨m, n + 1, n, n + 1, [f.bytes]⟩ := by rw [astrayRing, hm, hg, hn]
  have hload : m.load 0 g.bytes.length = g.bytes := by rw [← hm, Mem.load_store]
  have hs : span Frame.bytes 1 g = n := hg.trans hn
  rw [hr] at hz ⊢
  rw [hn] at hz hf ⊢
  generalize [f.bytes] = freed
  -- from the end back to the beginning, past the frame there, and twice past what has never been written
  obtain ⟨a, h₁, -⟩ := myfree_blank n (n + 1) freed (hz (n + 1) (Nat.le_succ _))
  have h₂ : myfree ⟨m, 0, n, maxMemory, freed ++ [a]⟩ = ⟨m, n, n, maxMemory, freed ++ [a] ++ [g.bytes]⟩ := by
    obtain ⟨-, he⟩ := myfree_eq (r := ⟨m, 0, n, maxMemory, freed ++ [a]⟩) hload (by omega)
    rw [he, hs, Nat.zero_add]
    exact if_neg (by show ¬maxMemory ≤ n; omega)
  obtain ⟨b, -, h₃⟩ := myfree_blank n maxMemory (freed ++ [a] ++ [g.bytes]) (hz n (Nat.le_refl _))
  obtain ⟨c, -, h₄⟩ := myfree_blank n maxMemory (freed ++ [a] ++ [g.bytes] ++ [b])
    (hz (n + 37) (Nat.le_add_right _ _))
  have hroom : makeRoom 5 ⟨m, n + 1, n, n + 1, freed⟩ 36 =
      some ⟨m, n + 37 + 37, n, maxMemory, freed ++ [a] ++ [g.bytes] ++ [b] ++ [c]⟩ := by
    rw [makeRoom, if_pos ⟨Nat.lt_succ_self _, by show n + 1 ≤ n + 36 + 1; omega⟩,
      discardWhile_next _ (by show n + 1 ≤ n + 36 + 1; omega) (h₁ (Nat.le_add_right _ _)),
      discardWhile_next _ (Nat.zero_le _) h₂,
      discardWhile_next _ (by show n ≤ n + 36 + 1; omega) (h₃ (by omega)),
      discardWhile_next _ (by show n + 37 ≤ n + 36 + 1; omega) (h₄ (by omega))]
    exact if_neg (by show ¬n + 37 + 37 ≤ n + 36 + 1; omega)
  refine ⟨⟨m, n + 37 + 37, n + (36 + 1), maxMemory, _⟩, a, b, c, ?_, rfl⟩
  rw [myallocate, hroom, Option.bind_eq_bind, Option.bind_some]
  exact if_neg (by show ¬maxMemory < n + 36; omega)

/-- A frame is pushed and popped and a shorter one pushed over the wrap. -/
theorem reach_astray {f g : Frame} (hf : f.bytes.length + 1 < maxMemory) (hg : g.bytes.length < f.bytes.length)
    (hs : maxMemory < f.bytes.length + 1 + g.bytes.length) : ∃ s, Reach placeStep (fun s => Limited s.service) .initial s ∧
      s.service.ring = astrayRing f g ∧ s.stored = [(0, g)] := by
  have h₁ : Reach placeStep (fun s => Limited s.service) .initial (firstPlaced f) :=
    .next .start (limited_push (by omega) _ 1) (placeStep_first (by omega))
  have h₂ := reach_placePop h₁ Nat.one_pos (fun _ => ⟨trivial, trivial, trivial⟩) (myfree_first hf)
  have h₃ := h₂.next (limited_push (by omega) _ 2) (placeStep_eq (by omega) (myallocate_emptied hg hf hs))
  exact ⟨_, h₃, rfl, rfl⟩

/-- A frame that is one byte shorter than `largeFrame`. -/
def shorterFrame : Frame := blankFrame 1572827 (by decide)

/-- Three quarters of the buffer are pushed and popped, a frame one byte
shorter goes over the wrap, and a place of 36 bytes behind it is asked for:
the frame in front of that place is discarded. -/
theorem frame_discarded_elsewhere : ∃ s r p, Reach placeStep (fun s => Limited s.service) .initial s ∧
    s.stored = [(0, shorterFrame)] ∧ myallocate 6 s.service.ring 36 = some (r, p) ∧ shorterFrame.bytes.length < p ∧
    shorterFrame.bytes ∈ r.freed.drop s.service.ring.freed.length ∧ ¬Sound s.service.ring s.stored 36 r p := by
  have hf := length_largeFrame
  have hg : shorterFrame.bytes.length = 1572863 := by
    rw [length_frame, shorterFrame, size_blankFrame, sizeofFrameInfo]
  have hm : maxMemory = 2097152 := rfl
  obtain ⟨s, hreach, hring, hst⟩ := reach_astray (f := largeFrame) (g := shorterFrame) (by omega) (by omega) (by omega)
  obtain ⟨r, a, b, c, ha, hfr⟩ := myallocate_elsewhere (f := largeFrame) (g := shorterFrame) (by omega) (by omega)
  rw [← hring] at ha hfr
  refine ⟨s, r, _, hreach, hst, ha, by omega, ?_, fun h => ?_⟩
  · rw [hfr, List.append_assoc, List.append_assoc, List.append_assoc, List.drop_left]
    simp
  · obtain ⟨gone, kept, hq, hgone, hplace, -⟩ := h.discarded
    rw [hst] at hq
    rcases gone with _ | ⟨x, gone⟩
    · rw [hfr] at hgone
      simp at hgone
    · obtain ⟨rfl, -⟩ := List.cons.inj hq
      have := (hplace _ List.mem_cons_self).1
      omega

/-! ## Calls that do not return -/

/-- A frame that is larger than the buffer finds no place in any ring. -/
theorem myallocate_endless {size : Nat} (hs : maxMemory < size) : ∀ (fuel : Nat) (r : Ring), myallocate fuel r size = none
  | 0, _ => rfl
  | fuel + 1, r => by
    rw [myallocate]
    rcases makeRoom fuel r size with _ | r'
    · rfl
    · rw [Option.bind_eq_bind, Option.bind_some, if_pos (by omega)]
      exact myallocate_endless hs fuel (wrap r')

theorem pushFrame_none {fuel : Nat} {r : Ring} {f : Frame}
    (h : myallocate fuel r (u32 (sizeofFrameInfo + f.info.size.toNat)) = none) : pushFrame fuel r f = none := by
  rw [pushFrame, h]
  rfl

/-- The loop goes round when the new frame leaves no place for the reader. -/
theorem discardWhile_endless {size : Nat} : ∀ (fuel : Nat) {r : Ring}, r.readPos ≤ r.writePos + size + 1 →
    r.bufferEndPos ≤ maxMemory → maxMemory ≤ r.writePos + size + 1 → discardWhile fuel r size = none
  | 0, _, _, _, _ => rfl
  | fuel + 1, r, hr, he, hs => by
    rw [discardWhile, if_pos hr, discardFrame, myfree]
    split
    · exact discardWhile_endless fuel (Nat.zero_le _) (Nat.le_refl _) hs
    · refine discardWhile_endless fuel ?_ he hs
      show r.readPos + _ ≤ r.writePos + size + 1
      omega

/-- In every run whose pushes fit and whose pops find a frame a push that fits
returns; a frame that is larger than the buffer is never pushed. -/
theorem pushFrame_returns {s : Service} (h : Reach step Fitting .initial s) (f : Frame) :
    (f.bytes.length ≤ maxMemory → Fits s.ring s.stored f.bytes.length → ∀ fuel, s.stored.length + 2 < fuel →
      ∃ r, pushFrame fuel s.ring f = some r) ∧
    (maxMemory < u32 (sizeofFrameInfo + f.info.size.toNat) → ∀ fuel, pushFrame fuel s.ring f = none) :=
  ⟨fun hm hf fuel hl => (pushFrame_fits fuel (inOrder_run h).layout hm hf).2 hl,
    fun hs fuel => pushFrame_none (myallocate_endless hs fuel s.ring)⟩

theorem pushFrame_returns_first : ∃ r, pushFrame 3 .initial smallFrame = some r := by
  have hl : smallFrame.bytes.length = 1036 := by rw [length_frame, smallFrame, size_blankFrame, sizeofFrameInfo]
  have hm : smallFrame.bytes.length ≤ maxMemory := by rw [hl]; decide
  exact (pushFrame_returns .start smallFrame).1 hm (fits_initial hm _) 3 (by decide)

/-- The ring is empty and the frame takes the whole buffer. -/
theorem myallocate_whole {f : Frame} {size : Nat} (hf : f.bytes.length + 1 ≤ maxMemory) (hs : size + 1 = maxMemory)
    (hsize : maxMemory < f.bytes.length + 1 + size) : ∀ fuel, myallocate fuel (emptiedRing f) size = none
  | 0 => rfl
  | 1 => by
    rw [myallocate_over (Nat.le_refl _) hsize]
    rfl
  | fuel + 2 => by
    have hw : wrap (emptiedRing f) = { emptiedRing f with bufferEndPos := f.bytes.length + 1, writePos := 0 } := by
      rw [wrap]
      exact if_neg (Nat.succ_ne_zero f.bytes.length).symm
    have hroom : makeRoom fuel (wrap (emptiedRing f)) size = none := by
      rw [hw, makeRoom, if_pos ⟨Nat.succ_pos f.bytes.length, by show f.bytes.length + 1 ≤ 0 + size + 1; omega⟩]
      exact discardWhile_endless fuel (by show f.bytes.length + 1 ≤ 0 + size + 1; omega) hf
        (by show maxMemory ≤ 0 + size + 1; omega)
    rw [myallocate_over (Nat.le_refl _) hsize, myallocate, hroom]
    rfl

/-- A frame of one byte more than the buffer with its `FrameInfo_t`. -/
def hugeFrame : Frame := blankFrame 2097117 (by decide)

/-- The largest frame in the limits of the buffer. -/
def wholeFrame : Frame := blankFrame 2097115 (by decide)

/-- A frame larger than the buffer is never pushed; and neither is a frame that
takes the whole buffer, into a ring that is empty again. -/
theorem pushFrame_endless : (∀ fuel, pushFrame fuel .initial hugeFrame = none) ∧
    ∃ s, Reach step Limited .initial s ∧ s.stored = [] ∧ wholeFrame.bytes.length + 1 = maxMemory ∧
      ∀ fuel, pushFrame fuel s.ring wholeFrame = none := by
  have hl : wholeFrame.bytes.length + 1 = maxMemory := by
    rw [length_frame, wholeFrame, size_blankFrame, sizeofFrameInfo]
    rfl
  have hlarge : largeFrame.bytes.length + 1 < maxMemory := by rw [length_largeFrame]; decide
  refine ⟨fun fuel => pushFrame_none (myallocate_endless ?_ fuel _), ?_⟩
  · rw [hugeFrame, size_blankFrame]
    decide
  · have h₁ := reach_push (s := .initial) .start (limited_push (Nat.le_of_lt hlarge) _ _)
      (pushFrame_first (Nat.le_trans (Nat.le_add_right _ 1) (Nat.le_of_lt hlarge)))
    have h₂ := reach_pop h₁ (Nat.succ_pos _) (fun _ => ⟨trivial, trivial, trivial⟩) (myfree_first hlarge)
    refine ⟨_, h₂, rfl, hl, fun fuel => pushFrame_none ?_⟩
    rw [u32_length (by omega)]
    exact myallocate_whole (Nat.le_of_lt hlarge) hl (by rw [length_largeFrame]; omega) fuel

end XH.Proof.Camera
