import Xhome.Impl.Control.Registry

/-!
# The registry of the control server

The listener on a channel's close future removes the serial number that is
attached to the channel when it closes. That is the one number the channel is
registered under, as long as it has only one.

* `Registered`: what holds of the group between two events;
* `Registered.regist`, `Registered.close`: a registration by a channel that has
  no other number keeps it, and so does every close;
* `registry_open`: in a run of such events every number is found exactly where
  it was registered last, if that channel is open, and whoever is told
  `Send done` was written to an open channel.
-/

namespace XH.Proof.Control

open XH.Impl.Control

/-! ## The operations -/

section

variable {g : ChannelGroup} {c o : ChannelId} {key : JavaString} {d : DeviceMetadata}

@[simp] theorem removeListener_clientChannels (g : ChannelGroup) (c : ChannelId) :
    (g.removeListener c).clientChannels = g.clientChannels := by
  rw [ChannelGroup.removeListener]; split <;> rfl

@[simp] theorem removeListener_attachment (g : ChannelGroup) (c : ChannelId) :
    (g.removeListener c).attachment = g.attachment := by
  rw [ChannelGroup.removeListener]; split <;> rfl

@[simp] theorem removeListener_closed (g : ChannelGroup) (c : ChannelId) : (g.removeListener c).closed = g.closed := by
  rw [ChannelGroup.removeListener]; split <;> rfl

theorem remove_clientChannels (g : ChannelGroup) (key : JavaString) :
    (g.remove key).clientChannels = Function.update g.clientChannels key none := by
  rw [ChannelGroup.remove]
  split
  · rename_i h
    rw [← h, Function.update_eq_self]
  · rw [removeListener_clientChannels]

@[simp] theorem remove_attachment (g : ChannelGroup) (key : JavaString) : (g.remove key).attachment = g.attachment := by
  rw [ChannelGroup.remove]; split <;> simp

@[simp] theorem remove_closed (g : ChannelGroup) (key : JavaString) : (g.remove key).closed = g.closed := by
  rw [ChannelGroup.remove]; split <;> simp

theorem remove_listeners_none (h : g.clientChannels key = none) : (g.remove key).listeners = g.listeners := by
  rw [ChannelGroup.remove, h]

theorem remove_listeners_open (h : g.clientChannels key = some o) (ho : g.closed o = false) :
    (g.remove key).listeners = Function.update g.listeners o (g.listeners o - 1) := by
  simp [ChannelGroup.remove, h, ChannelGroup.removeListener, ho]

theorem remove_listeners_closed (h : g.clientChannels key = some o) (ho : g.closed o = true) :
    (g.remove key).listeners = g.listeners := by
  simp [ChannelGroup.remove, h, ChannelGroup.removeListener, ho]

/-- The group between the two halves of a registration. -/
theorem regist_eq (g : ChannelGroup) (c : ChannelId) (d : DeviceMetadata) :
    g.regist c d = ((g.setAttachment c d).remove d.serialNum).add d.serialNum c := by
  show ChannelGroup.add (if (g.setAttachment c d).containsKey d.serialNum then _ else _) _ _ = _
  congr 1
  split
  · rfl
  · rename_i h
    rw [ChannelGroup.containsKey, Option.not_isSome_iff_eq_none] at h
    rw [ChannelGroup.remove, h]

/-- A registration; the number goes again at once if the channel is closed
already. -/
theorem regist_fields (g : ChannelGroup) (c : ChannelId) (d : DeviceMetadata) :
    (g.regist c d).clientChannels = Function.update g.clientChannels d.serialNum ((some c).filter fun c => !g.closed c) ∧
      (g.regist c d).listeners = Function.update ((g.setAttachment c d).remove d.serialNum).listeners c
        (((g.setAttachment c d).remove d.serialNum).listeners c + if g.closed c then 0 else 1) ∧
      (g.regist c d).attachment = Function.update g.attachment c (some d) ∧ (g.regist c d).closed = g.closed := by
  have hmap := remove_clientChannels (g.setAttachment c d) d.serialNum
  have hatt := remove_attachment (g.setAttachment c d) d.serialNum
  have hclo := remove_closed (g.setAttachment c d) d.serialNum
  rw [regist_eq]
  generalize (g.setAttachment c d).remove d.serialNum = g' at hmap hatt hclo
  have hnone : g'.clientChannels d.serialNum = none := by rw [hmap, Function.update_self]
  have hd : g'.attachment c = some d := by rw [hatt]; exact Function.update_self ..
  have hcc : g'.closed c = g.closed c := by rw [hclo]; rfl
  rw [ChannelGroup.add]
  cases hc : g.closed c with
  | false =>
    simp only [hnone, ChannelGroup.addListener, hcc, hc, Bool.false_eq_true, if_false]
    refine ⟨?_, trivial, hatt, hclo⟩
    rw [hmap, Function.update_idem, Option.filter_some, hc]
    rfl
  | true =>
    simp only [hnone, ChannelGroup.addListener, hcc, hc, if_true, ChannelGroup.remover, hd]
    refine ⟨?_, ?_, ?_, ?_⟩
    · rw [remove_clientChannels, Function.update_idem, hmap, Function.update_idem, Option.filter_some, hc]
      rfl
    · rw [Nat.add_zero, Function.update_eq_self]
      exact remove_listeners_closed (Function.update_self ..) (hcc.trans hc)
    · rw [remove_attachment]
      exact hatt
    · rw [remove_closed]
      exact hclo

end

/-! ## Between two events -/

/-- `last` gives the channel that registered a number last. -/
structure Registered (last : JavaString → Option ChannelId) (g : ChannelGroup) : Prop where
  /-- A channel that is found is open, has its number attached and one listener. -/
  owned : ∀ {k c}, g.find k = some c →
    g.closed c = false ∧ (∃ m, g.attachment c = some ⟨k, m⟩) ∧ g.listeners c = 1
  /-- The others have none. -/
  free : ∀ {c}, (∀ k, g.find k ≠ some c) → g.listeners c = 0
  latest : ∀ k, g.find k = (last k).filter fun c => !g.closed c

namespace Registered

variable {last : JavaString → Option ChannelId} {g : ChannelGroup} {c : ChannelId} {d : DeviceMetadata}

theorem initial : Registered (fun _ => none) .initial :=
  ⟨(fun h => by cases h), fun _ => rfl, fun _ => rfl⟩

/-- A channel has one number at most. -/
theorem unique (h : Registered last g) {k k' : JavaString} (hk : g.find k = some c) (hk' : g.find k' = some c) :
    k = k' := by
  obtain ⟨-, ⟨m, hm⟩, -⟩ := h.owned hk
  obtain ⟨-, ⟨m', hm'⟩, -⟩ := h.owned hk'
  exact congrArg DeviceMetadata.serialNum (Option.some.inj (hm.symm.trans hm'))

/-- Once its number is removed, no channel has more than the listener of its own
number. -/
theorem removed_listeners (h : Registered last g) (o : ChannelId) :
    ((g.setAttachment c d).remove d.serialNum).listeners o =
      if g.find d.serialNum = some o then 0 else g.listeners o := by
  cases hk : g.find d.serialNum with
  | none =>
    rw [remove_listeners_none (show (g.setAttachment c d).clientChannels d.serialNum = none from hk),
      if_neg (fun e => by cases e)]
    rfl
  | some o' =>
    obtain ⟨hopen, -, hone⟩ := h.owned hk
    rw [remove_listeners_open (show (g.setAttachment c d).clientChannels d.serialNum = some o' from hk) hopen]
    rcases eq_or_ne o o' with rfl | hne
    · rw [Function.update_self, if_pos rfl]
      show g.listeners o - 1 = 0
      rw [hone]
    · rw [Function.update_of_ne hne, if_neg fun e => hne (Option.some.inj e).symm]
      rfl

/-- After a registration its channel has one listener, and the one that had the
number before has none. -/
theorem regist_listeners (h : Registered last g) (hone : ∀ k, g.find k = some c → k = d.serialNum) (o : ChannelId) :
    (g.regist c d).listeners o =
      if o = c then if g.closed c then 0 else 1 else if g.find d.serialNum = some o then 0 else g.listeners o := by
  rw [(regist_fields g c d).2.1, Function.update_apply, h.removed_listeners, h.removed_listeners]
  split
  · have h0 : (if g.find d.serialNum = some c then 0 else g.listeners c) = 0 := by
      split
      · rfl
      · rename_i hn
        exact h.free fun k hk => hn (hone k hk ▸ hk)
    rw [h0, Nat.zero_add]
  · rfl

/-- A registration by a channel that is found under no other number. -/
theorem regist (h : Registered last g) (hone : ∀ k, g.find k = some c → k = d.serialNum) :
    Registered (Function.update last d.serialNum (some c)) (g.regist c d) := by
  obtain ⟨hmap, -, hatt, hclo⟩ := regist_fields g c d
  have hlis := h.regist_listeners hone
  have hfind : ∀ k, (g.regist c d).find k =
      if k = d.serialNum then (some c).filter fun c => !g.closed c else g.find k := fun k => by
    rw [ChannelGroup.find, hmap, Function.update_apply]
    rfl
  refine ⟨?_, ?_, ?_⟩
  · intro k o hk
    rw [hfind] at hk
    split at hk
    · rename_i hkey
      obtain ⟨e, ho⟩ := Option.filter_eq_some_iff.mp hk
      obtain rfl := Option.some.inj e
      have hopen : g.closed c = false := by simpa using ho
      refine ⟨by rw [hclo, hopen], ⟨d.deviceModel, ?_⟩, by rw [hlis, if_pos rfl, hopen]; rfl⟩
      rw [hatt, Function.update_self, hkey]
    · rename_i hkey
      obtain ⟨h₁, h₂, h₃⟩ := h.owned hk
      have ho : o ≠ c := fun e => hkey (hone k (e ▸ hk))
      refine ⟨by rw [hclo]; exact h₁, by rw [hatt, Function.update_of_ne ho]; exact h₂, ?_⟩
      rw [hlis, if_neg ho, if_neg fun hs => hkey (h.unique hk hs), h₃]
  · intro o hfree
    rw [hlis]
    split
    · rename_i ho
      subst ho
      split
      · rfl
      · rename_i hopen
        exact absurd (by rw [hfind, if_pos rfl, Option.filter_some]; simp [hopen]) (hfree d.serialNum)
    · split
      · rfl
      · rename_i hn
        refine h.free fun k hk => hfree k ?_
        rw [hfind, if_neg (by rintro rfl; exact hn hk), hk]
  · intro k
    rw [hfind, Function.update_apply, hclo]
    split
    · rfl
    · exact h.latest k

/-- The listener runs once if the channel is registered, with its number
attached. -/
theorem close_fields (h : Registered last g) (hc : g.closed c = false) :
    (g.close c).clientChannels = (fun k => if g.find k = some c then none else g.find k) ∧
      (g.close c).listeners = Function.update g.listeners c 0 ∧ (g.close c).attachment = g.attachment ∧
      (g.close c).closed = Function.update g.closed c true := by
  have hnc : ¬ g.closed c = true := by rw [hc]; exact Bool.false_ne_true
  rw [ChannelGroup.close, if_neg hnc]
  by_cases hk : ∃ k, g.find k = some c
  · obtain ⟨k, hk⟩ := hk
    obtain ⟨-, ⟨m, hm⟩, hone⟩ := h.owned hk
    simp only [hone, ChannelGroup.notifyListeners, ChannelGroup.remover, hm]
    refine ⟨?_, ?_, ?_, ?_⟩
    · rw [remove_clientChannels]
      funext k'
      rw [Function.update_apply]
      split
      · rename_i e
        rw [e, if_pos hk]
      · rename_i e
        rw [if_neg fun hk' => e (h.unique hk' hk)]
        rfl
    · rw [remove_listeners_closed (g := { g with closed := Function.update g.closed c true }) hk
        (Function.update_self ..)]
    · rw [remove_attachment]
    · rw [remove_closed]
  · have h0 : g.listeners c = 0 := h.free fun k hk' => hk ⟨k, hk'⟩
    simp only [h0, ChannelGroup.notifyListeners]
    refine ⟨?_, trivial, trivial, trivial⟩
    funext k
    rw [if_neg fun hk' => hk ⟨k, hk'⟩]
    rfl

theorem close (h : Registered last g) (c : ChannelId) : Registered last (g.close c) := by
  cases hc : g.closed c with
  | true => rw [ChannelGroup.close, if_pos hc]; exact h
  | false =>
    obtain ⟨hmap, hlis, hatt, hclo⟩ := h.close_fields hc
    have hfind : ∀ k, (g.close c).find k = if g.find k = some c then none else g.find k := fun k => by
      rw [ChannelGroup.find, hmap]
    refine ⟨?_, ?_, ?_⟩
    · intro k o hk
      rw [hfind] at hk
      split at hk
      · cases hk
      · rename_i hn
        have ho : o ≠ c := fun e => hn (e ▸ hk)
        rw [hclo, hlis, hatt, Function.update_of_ne ho, Function.update_of_ne ho]
        exact h.owned hk
    · intro o hfree
      rw [hlis, Function.update_apply]
      split
      · rfl
      · rename_i ho
        refine h.free fun k hk => hfree k ?_
        rw [hfind, if_neg (by rw [hk]; exact fun e => ho (Option.some.inj e)), hk]
    · intro k
      rw [hfind, h.latest k, hclo]
      cases last k with
      | none => rfl
      | some o =>
        rcases eq_or_ne o c with rfl | ho
        · simp [Option.filter_some, hc]
        · simp [Option.filter_some, ho]

end Registered

/-! ## Runs -/

/-- The registration in an event. -/
def registration : ServerEvent → Option (ChannelId × DeviceMetadata)
  | .message c msg =>
    if msg.messageType = some CommandType.regist.getValue then (deviceDataOf msg).toOption.map fun d => (c, d) else none
  | .close _ => none

/-- The channels that registered the numbers last, after one more event. -/
def lastAfter (last : JavaString → Option ChannelId) (e : ServerEvent) : JavaString → Option ChannelId :=
  match registration e with
  | some (c, d) => Function.update last d.serialNum (some c)
  | none => last

/-- The channel that registered a number last. -/
def lastRegistered (es : List ServerEvent) : JavaString → Option ChannelId := es.foldl lastAfter fun _ => none

/-- Whoever registers is not found under another number. -/
def OneNumber (g : ChannelGroup) (e : ServerEvent) : Prop :=
  ∀ c d, registration e = some (c, d) → ∀ k, g.find k = some c → k = d.serialNum

/-- Every event of a run meets `OneNumber`. -/
def OneNumbers (g : ChannelGroup) : List ServerEvent → Prop
  | [] => True
  | e :: es => OneNumber g e ∧ OneNumbers (serverStep g e).1 es

section

variable {g : ChannelGroup} {c : ChannelId} {msg : Message}

theorem onMessage_regist (h : msg.messageType = some CommandType.regist.getValue) :
    onMessage g c msg = (deviceDataOf msg).map fun d => (g.regist c d, .nothing) := by
  simp only [onMessage, h]
  cases deviceDataOf msg <;> rfl

/-- Only a registration changes the group, and only a command to turn a camera
is answered. -/
theorem onMessage_other (h : msg.messageType ≠ some CommandType.regist.getValue) {r : ChannelGroup × Written}
    (hr : onMessage g c msg = .ok r) :
    r.1 = g ∧ (r.2 = .nothing ∨ ∃ type index, forward g msg type index = .ok r.2) := by
  unfold onMessage at hr
  cases ht : msg.messageType with
  | none => rw [ht] at hr; cases hr
  | some type =>
    have hne : ¬ type = CommandType.regist.getValue := fun e => h (by rw [ht, e])
    rw [ht] at hr
    have hget : ∀ {d : Except Fault Datum}, (d >>= fun _ => pure (g, Written.nothing)) = Except.ok r →
        r.1 = g ∧ r.2 = .nothing := by
      intro d hd
      cases d with
      | error f => cases hd
      | ok d => obtain rfl := Except.ok.inj hd; exact ⟨rfl, rfl⟩
    have hforward : ∀ {index : Nat}, (forward g msg type index >>= fun w => pure (g, w)) = Except.ok r →
        r.1 = g ∧ ∃ type index, forward g msg type index = .ok r.2 := by
      intro index hd
      cases hw : forward g msg type index with
      | error f => rw [hw] at hd; cases hd
      | ok w => rw [hw] at hd; obtain rfl := Except.ok.inj hd; exact ⟨rfl, type, index, hw⟩
    simp only [if_neg hne] at hr
    repeat' split at hr
    · exact ⟨(hforward hr).1, .inr (hforward hr).2⟩
    · exact ⟨(hget hr).1, .inl (hget hr).2⟩
    · exact ⟨(hforward hr).1, .inr (hforward hr).2⟩
    · exact ⟨(hget hr).1, .inl (hget hr).2⟩
    · obtain rfl := Except.ok.inj hr
      exact ⟨rfl, .inl rfl⟩

/-- `Send done` is the answer where the device was found. -/
theorem forward_done {type type' : BitVec 32} {index : Nat} {w : Written} (h : forward g msg type index = .ok w)
    (ha : w.answer = some [.integer type', .string (literal "Send done")]) :
    ∃ k o, w.target = some (o, msg) ∧ g.find k = some o := by
  unfold forward at h
  cases hd : msg.get index with
  | error f => rw [hd] at h; cases h
  | ok d =>
    cases hk : d.toJavaString with
    | error f => rw [hd] at h; simp only [bind, Except.bind, hk] at h; cases h
    | ok k =>
      rw [hd] at h
      simp only [bind, Except.bind, hk] at h
      split at h
      · rename_i o ho
        obtain rfl := Except.ok.inj h
        exact ⟨k, o, rfl, ho⟩
      · obtain rfl := Except.ok.inj h
        have hs : type = type' ∧ literal "Send failed" = literal "Send done" := by simpa using ha
        exact absurd hs.2 (by decide)

end

/-- What an event does to the group. -/
theorem serverStep_cases (g : ChannelGroup) (e : ServerEvent) :
    (∃ c d, registration e = some (c, d) ∧ (serverStep g e).1 = g.regist c d) ∨
      (registration e = none ∧ ((serverStep g e).1 = g ∨ ∃ c, (serverStep g e).1 = g.close c)) := by
  cases e with
  | close c => exact .inr ⟨rfl, .inr ⟨c, rfl⟩⟩
  | message c msg =>
    by_cases ht : msg.messageType = some CommandType.regist.getValue
    · rw [registration, if_pos ht, serverStep, onMessage_regist ht]
      cases deviceDataOf msg with
      | error f => exact .inr ⟨rfl, .inr ⟨c, rfl⟩⟩
      | ok d => exact .inl ⟨c, d, rfl, rfl⟩
    · refine .inr ⟨if_neg ht, ?_⟩
      rw [serverStep]
      cases hr : onMessage g c msg with
      | error f => exact .inr ⟨c, rfl⟩
      | ok r => exact .inl (onMessage_other ht hr).1

theorem Registered.step {last : JavaString → Option ChannelId} {g : ChannelGroup} {e : ServerEvent}
    (h : Registered last g) (he : OneNumber g e) : Registered (lastAfter last e) (serverStep g e).1 := by
  rcases serverStep_cases g e with ⟨c, d, hr, hg⟩ | ⟨hr, hg | ⟨c, hg⟩⟩
  · rw [lastAfter, hr, hg]
    exact h.regist (he c d hr)
  · rw [lastAfter, hr, hg]
    exact h
  · rw [lastAfter, hr, hg]
    exact h.close c

theorem Registered.run {last : JavaString → Option ChannelId} {g : ChannelGroup} {es : List ServerEvent}
    (h : Registered last g) (hes : OneNumbers g es) : Registered (es.foldl lastAfter last) (serverRun g es) := by
  induction es generalizing last g with
  | nil => exact h
  | cons e es ih => exact ih (h.step hes.1) hes.2

/-- In a run in which no channel registers a second number while it is found
under the first, a number is found at the channel that registered it last, if
that one is open, and `Send done` means that an open channel was written to. -/
theorem registry_open {es : List ServerEvent} (h : OneNumbers .initial es) :
    (∀ k, (serverRun .initial es).find k =
        (lastRegistered es k).filter fun c => !(serverRun .initial es).closed c) ∧
      ∀ c msg type, (serverStep (serverRun .initial es) (.message c msg)).2.answer =
          some [.integer type, .string (literal "Send done")] →
        ∃ o, (serverStep (serverRun .initial es) (.message c msg)).2.target = some (o, msg) ∧
          (serverRun .initial es).closed o = false := by
  have hr := Registered.initial.run h
  refine ⟨hr.latest, fun c msg type ha => ?_⟩
  generalize serverRun .initial es = g at hr ha
  rw [serverStep] at ha ⊢
  by_cases ht : msg.messageType = some CommandType.regist.getValue
  · rw [onMessage_regist ht] at ha
    cases hd : deviceDataOf msg <;> rw [hd] at ha <;> cases ha
  · cases hm : onMessage g c msg with
    | error f => rw [hm] at ha; cases ha
    | ok r =>
      rw [hm] at ha
      rcases (onMessage_other ht hm).2 with hn | ⟨type', index, hf⟩
      · rw [hn] at ha
        cases ha
      · obtain ⟨k, o, ho, hk⟩ := forward_done hf ha
        exact ⟨o, ho, (hr.owned hk).1⟩

/-- A message that registers a serial number. -/
def registMessage (serial : JavaString) : Message :=
  ⟨none, some [.integer 4, .string serial, .string []], some 4⟩

/-- A channel that registers `A` and then `B` and closes leaves `A`. -/
theorem closed_channel_found :
    (serverRun .initial [.message 1 (registMessage (literal "A")), .message 1 (registMessage (literal "B")),
        .close 1]).find (literal "A") = some 1 ∧
      (serverRun .initial [.message 1 (registMessage (literal "A")), .message 1 (registMessage (literal "B")),
        .close 1]).closed 1 = true := by
  decide +kernel

/-- `A` moves from one channel to another, and the first one closes. -/
theorem moved_number_found :
    (serverRun .initial [.message 1 (registMessage (literal "A")), .message 2 (registMessage (literal "A")),
      .close 1]).find (literal "A") = some 2 := by
  have h : OneNumbers .initial [.message 1 (registMessage (literal "A")), .message 2 (registMessage (literal "A")),
      .close 1] := by
    refine ⟨(fun c d _ k hk => by cases hk), fun c d he k hk => ?_, (fun c d he => by cases he), trivial⟩
    obtain ⟨rfl, -⟩ := Prod.mk.inj (Option.some.inj he)
    have hf := congrFun (regist_fields .initial 1 ⟨literal "A", []⟩).1 k
    rw [Function.update_apply] at hf
    have hk := hf.symm.trans hk
    split at hk <;> cases hk
  rw [(registry_open h).1]
  decide +kernel

end XH.Proof.Control
