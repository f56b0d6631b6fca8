import Xhome.Impl.Control.Race
import Xhome.Proof.Control.Registry

/-!
# A device that comes back while its old channel closes

The listener of the old channel removes the serial number without looking at
the channel it finds there. If the new channel has been put before, the device
is lost: `found_iff_not_late`.
-/

namespace XH.Proof.Control

open XH.Impl.Control

section

variable (c₁ c₂ : ChannelId) (d : DeviceMetadata)

/-- A listener of the old channel removes its key after the new channel was
added. -/
def removesLate (r : Race) (p : Party) : Bool :=
  match p, r.registering, r.closing with
  | .close, .done, .remove _ _ => true
  | _, _, _ => false

/-- Some step of the interleaving removes the key late. -/
def late (r : Race) : List Party → Bool
  | [] => false
  | p :: ps =>
    removesLate r p ||
      match raceStep c₁ c₂ d r p with
      | some t => late t ps
      | none => false

/-- Where the number is found before the next step of the registration; `lost`
says whether a key was removed late. -/
def Place (lost : Bool) : Registering → Option ChannelId → Prop
  | .done, o => o = if lost then none else some c₂
  | .add, o => o = none ∧ lost = false
  | _, _ => lost = false

/-- What holds between two steps. -/
structure Racing (lost : Bool) (r : Race) : Prop where
  attached : ∃ m, r.group.attachment c₁ = some ⟨d.serialNum, m⟩
  isOpen : r.group.closed c₂ = false
  key : ∀ {k n}, r.closing = .remove k n → k = d.serialNum
  place : Place c₂ lost r.registering (r.group.find d.serialNum)

end

section

variable {c₁ c₂ : ChannelId} {d : DeviceMetadata} {lost : Bool} {r t : Race} {p : Party} {ps : List Party}

theorem find_remove (g : ChannelGroup) (key : JavaString) : (g.remove key).find key = none := by
  rw [ChannelGroup.find, remove_clientChannels, Function.update_self]

/-- `putIfAbsent` of an open channel. -/
theorem add_fields {g : ChannelGroup} {key : JavaString} {c : ChannelId} (hk : g.find key = none)
    (hc : g.closed c = false) :
    (g.add key c).find key = some c ∧ (g.add key c).attachment = g.attachment ∧ (g.add key c).closed = g.closed := by
  rw [ChannelGroup.find] at hk
  simp only [ChannelGroup.add, hk, ChannelGroup.addListener, hc, Bool.false_eq_true, if_false]
  exact ⟨Function.update_self .., trivial, trivial⟩

theorem Racing.register (hne : c₁ ≠ c₂) (h : Racing c₁ c₂ d lost r) (hs : registerStep c₂ d r = some t) :
    Racing c₁ c₂ d lost t := by
  have hp := h.place
  unfold registerStep at hs
  cases hr : r.registering with
  | setAttachment =>
    rw [hr] at hs hp
    obtain rfl := Option.some.inj hs
    refine ⟨?_, h.isOpen, h.key, hp⟩
    show ∃ m, Function.update r.group.attachment c₂ (some d) c₁ = _
    rw [Function.update_of_ne hne]
    exact h.attached
  | containsKey =>
    rw [hr] at hs hp
    obtain rfl := Option.some.inj hs
    refine ⟨h.attached, h.isOpen, h.key, ?_⟩
    dsimp only
    split
    · exact hp
    · rename_i hn
      rw [ChannelGroup.containsKey, Option.not_isSome_iff_eq_none] at hn
      exact ⟨hn, hp⟩
  | remove =>
    rw [hr] at hs hp
    obtain rfl := Option.some.inj hs
    refine ⟨by rw [remove_attachment]; exact h.attached, by rw [remove_closed]; exact h.isOpen, h.key, ?_⟩
    exact ⟨find_remove r.group d.serialNum, hp⟩
  | add =>
    rw [hr] at hs hp
    obtain rfl := Option.some.inj hs
    obtain ⟨hf, ha, hc⟩ := add_fields hp.1 h.isOpen
    refine ⟨by rw [ha]; exact h.attached, by rw [hc]; exact h.isOpen, h.key, ?_⟩
    rw [hf, hp.2]
    rfl
  | done => rw [hr] at hs; cases hs

/-- A key that is removed is gone, and late if the registration is over. -/
theorem Place.removed {q : Registering} {o : Option ChannelId} (h : Place c₂ lost q o) :
    Place c₂ (decide (q = .done) || lost) q none := by
  cases q with
  | done => rfl
  | add => exact ⟨rfl, h.2⟩
  | _ => exact h

theorem removesLate_close (r : Race) :
    removesLate r .close = match r.closing with
      | .remove _ _ => decide (r.registering = .done)
      | _ => false := by
  unfold removesLate
  cases r.registering <;> cases r.closing <;> rfl

theorem Racing.close (hne : c₁ ≠ c₂) (h : Racing c₁ c₂ d lost r) (hs : closeStep c₁ r = some t) :
    Racing c₁ c₂ d (removesLate r .close || lost) t := by
  unfold closeStep at hs
  cases hc : r.closing with
  | markClosed =>
    have hl : removesLate r .close = false := by rw [removesLate_close, hc]
    rw [hc] at hs
    rw [hl, Bool.false_or]
    dsimp only at hs
    split at hs
    · obtain rfl := Option.some.inj hs
      exact ⟨h.attached, h.isOpen, (fun e => by cases e), h.place⟩
    · obtain rfl := Option.some.inj hs
      refine ⟨h.attached, ?_, (fun e => by cases e), h.place⟩
      show Function.update r.group.closed c₁ true c₂ = false
      rw [Function.update_of_ne hne.symm]
      exact h.isOpen
  | remover n =>
    have hl : removesLate r .close = false := by rw [removesLate_close, hc]
    obtain ⟨m, hm⟩ := h.attached
    rw [hc] at hs
    rw [hl, Bool.false_or]
    cases n with
    | zero => cases hs
    | succ n =>
      simp only [hm] at hs
      obtain rfl := Option.some.inj hs
      refine ⟨⟨m, hm⟩, h.isOpen, fun e => ?_, h.place⟩
      cases e
      rfl
  | remove k n =>
    have hl : removesLate r .close = decide (r.registering = .done) := by rw [removesLate_close, hc]
    obtain rfl := h.key hc
    rw [hc] at hs
    obtain rfl := Option.some.inj hs
    refine ⟨by rw [remove_attachment]; exact h.attached, by rw [remove_closed]; exact h.isOpen,
      (fun e => by cases e), ?_⟩
    rw [find_remove, hl]
    exact h.place.removed

theorem Racing.step (hne : c₁ ≠ c₂) (h : Racing c₁ c₂ d lost r) (hs : raceStep c₁ c₂ d r p = some t) :
    Racing c₁ c₂ d (removesLate r p || lost) t := by
  cases p with
  | register => exact h.register hne hs
  | close => exact h.close hne hs

theorem Racing.run (hne : c₁ ≠ c₂) (h : Racing c₁ c₂ d lost r)
    (hs : runEvents (raceStep c₁ c₂ d) r ps = some t) : Racing c₁ c₂ d (lost || late c₁ c₂ d r ps) t := by
  induction ps generalizing r lost with
  | nil =>
    obtain rfl := Option.some.inj hs
    rw [late, Bool.or_false]
    exact h
  | cons p ps ih =>
    rw [runEvents, runIf, if_pos trivial] at hs
    obtain ⟨u, hu, hs⟩ := Option.bind_eq_some_iff.mp hs
    have h' := ih (h.step hne hu) hs
    rw [late, hu]
    rwa [Bool.or_comm (removesLate r p), Bool.or_assoc] at h'

/-- In every interleaving of the closing of `c₁`, which is found under a serial
number, with the registration of that number by `c₂`, the number is found at
`c₂` in the end exactly if no listener of `c₁` removed it after `c₂` was
added. -/
theorem found_iff_not_late {g : ChannelGroup} {m : JavaString} (hne : c₁ ≠ c₂)
    (hatt : g.attachment c₁ = some ⟨d.serialNum, m⟩) (hopen : g.closed c₂ = false)
    (hrun : runEvents (raceStep c₁ c₂ d) ⟨g, .setAttachment, .markClosed⟩ ps = some t) (hdone : t.finished) :
    t.group.find d.serialNum = some c₂ ↔ late c₁ c₂ d ⟨g, .setAttachment, .markClosed⟩ ps = false := by
  have h₀ : Racing c₁ c₂ d false ⟨g, .setAttachment, .markClosed⟩ :=
    ⟨⟨m, hatt⟩, hopen, (fun e => by cases e), rfl⟩
  have hp := (h₀.run hne hrun).place
  rw [hdone.1, Bool.false_or] at hp
  rw [hp]
  cases late c₁ c₂ d ⟨g, .setAttachment, .markClosed⟩ ps <;> simp

end

/-- The old channel of the device `A`. -/
def oldChannel : ChannelGroup := ChannelGroup.initial.regist 1 ⟨literal "A", []⟩

/-- The old channel has read its attachment when the new one registers, and
removes the key then. -/
theorem late_close_loses :
    ∃ t, runEvents (raceStep 1 2 ⟨literal "A", []⟩) ⟨oldChannel, .setAttachment, .markClosed⟩
        [.close, .close, .register, .register, .register, .register, .close] = some t ∧ t.finished ∧
      t.group.closed 2 = false ∧ t.group.find (literal "A") = none :=
  ⟨_, rfl, ⟨rfl, rfl⟩, rfl, by decide +kernel⟩

/-- The new channel registers before the old one closes. -/
theorem early_registration_found :
    ∃ t, runEvents (raceStep 1 2 ⟨literal "A", []⟩) ⟨oldChannel, .setAttachment, .markClosed⟩
        [.register, .register, .register, .register, .close] = some t ∧ t.finished ∧
      t.group.find (literal "A") = some 2 := by
  refine ⟨_, rfl, ⟨rfl, rfl⟩, ?_⟩
  exact (@found_iff_not_late 1 2 ⟨literal "A", []⟩ _ [.register, .register, .register, .register, .close] oldChannel
    [] (by decide) rfl rfl rfl ⟨rfl, rfl⟩).mpr (by decide +kernel)

end XH.Proof.Control
