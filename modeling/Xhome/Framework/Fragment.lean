import Mathlib.Data.List.Basic

/-!
# Requests answered in fragments

A receiver asks for a number of elements and is handed them in completions of
any positive length up to what is still missing. If handling two completions
one after the other is handling their concatenation (`Receiver.Joins`), then
what a whole run does depends on the elements only, not on how they were cut
into completions (`Receiver.Joins.run_same_of_flatten_eq`).
-/

namespace XH

/-- `want s` is what is missing of the outstanding request, 0 without one;
`recv s c` handles the completion `c` and makes some outputs. -/
structure Receiver (σ β ο : Type) where
  want : σ → Nat
  recv : σ → List β → σ × List ο

namespace Receiver

variable {σ β ο : Type} (R : Receiver σ β ο)

/-- One run after another. -/
def andThen (r : σ × List ο) (f : σ → σ × List ο) : σ × List ο := ((f r.1).1, r.2 ++ (f r.1).2)

/-- Handles the completions in turn; without a request nothing is read. -/
def run (s : σ) : List (List β) → σ × List ο
  | [] => (s, [])
  | c :: cs => if R.want s = 0 then (s, []) else andThen (R.recv s c) (run · cs)

/-- Every completion has a positive length and at most what is missing. -/
def Fits (s : σ) : List (List β) → Prop
  | [] => True
  | c :: cs => R.want s = 0 ∨ (0 < c.length ∧ c.length ≤ R.want s ∧ Fits (R.recv s c).1 cs)

instance decidableFits (s : σ) : (cs : List (List β)) → Decidable (R.Fits s cs)
  | [] => isTrue trivial
  | c :: cs =>
    have := decidableFits (R.recv s c).1 cs
    inferInstanceAs (Decidable (_ ∨ _))

/-- Results that answer alike: the same outputs, and the same state or two
states without a request that agree on `f`. -/
structure Same {τ : Type} (f : σ → τ) (r r' : σ × List ο) : Prop where
  outputs : r.2 = r'.2
  state : r.1 = r'.1 ∨ (R.want r.1 = 0 ∧ R.want r'.1 = 0 ∧ f r.1 = f r'.1)

/-- In the states of `Inv`, two completions of one request are handled as their
concatenation is, up to what `f` forgets of a state without a request. -/
structure Joins {τ : Type} (f : σ → τ) (Inv : σ → Prop) : Prop where
  recv_inv : ∀ {s : σ} {c : List β}, Inv s → 0 < c.length → c.length ≤ R.want s → Inv (R.recv s c).1
  want_recv : ∀ {s : σ} {a b : List β}, Inv s → 0 < a.length → 0 < b.length → a.length + b.length ≤ R.want s →
    R.want (R.recv s a).1 = R.want s - a.length
  recv_append : ∀ {s : σ} {a b : List β}, Inv s → 0 < a.length → 0 < b.length → a.length + b.length ≤ R.want s →
    R.Same f (R.recv s (a ++ b)) (andThen (R.recv s a) (R.recv · b))

variable {R}

theorem andThen_assoc (r : σ × List ο) (f g : σ → σ × List ο) :
    andThen (andThen r f) g = andThen r fun t => andThen (f t) g := by
  simp only [andThen, List.append_assoc]

theorem andThen_nil (r : σ × List ο) : andThen r (fun t => (t, [])) = r := by
  simp only [andThen, List.append_nil]

/-- A receiver that asks for nothing reads nothing. -/
theorem run_of_want_eq_zero {s : σ} (h : R.want s = 0) (cs : List (List β)) : R.run s cs = (s, []) := by
  cases cs with
  | nil => rfl
  | cons c cs => rw [run, if_pos h]

theorem run_append (s : σ) (cs ds : List (List β)) :
    R.run s (cs ++ ds) = andThen (R.run s cs) (R.run · ds) := by
  induction cs generalizing s with
  | nil => simp [run, andThen]
  | cons c cs ih =>
    by_cases h : R.want s = 0
    · rw [run_of_want_eq_zero h, run_of_want_eq_zero h]
      simp only [andThen, run_of_want_eq_zero h, List.append_nil]
    · simp only [List.cons_append, run, if_neg h, ih, andThen_assoc]

theorem fits_of_want_eq_zero {s : σ} (h : R.want s = 0) (cs : List (List β)) : R.Fits s cs := by
  cases cs with
  | nil => trivial
  | cons c cs => exact .inl h

theorem fits_append : ∀ {s : σ} {cs ds : List (List β)}, R.Fits s cs → R.Fits (R.run s cs).1 ds → R.Fits s (cs ++ ds)
  | _, [], _, _, hd => hd
  | s, c :: cs, ds, hc, hd => by
    by_cases h : R.want s = 0
    · exact .inl h
    · obtain ⟨h₁, h₂, hc⟩ := hc.resolve_left h
      rw [run, if_neg h] at hd
      exact .inr ⟨h₁, h₂, fits_append hc hd⟩

namespace Same

variable {τ : Type} {f : σ → τ} {r r' r'' : σ × List ο}

theorem refl (r : σ × List ο) : R.Same f r r := ⟨rfl, .inl rfl⟩

theorem symm (h : R.Same f r r') : R.Same f r' r := by
  refine ⟨h.outputs.symm, ?_⟩
  rcases h.state with e | ⟨h₁, h₂, e⟩
  · exact .inl e.symm
  · exact .inr ⟨h₂, h₁, e.symm⟩

theorem trans (h : R.Same f r r') (h' : R.Same f r' r'') : R.Same f r r'' := by
  refine ⟨h.outputs.trans h'.outputs, ?_⟩
  rcases h.state with e | ⟨h₁, h₂, e⟩
  · rw [e]; exact h'.state
  · rcases h'.state with e' | ⟨-, h₃, e'⟩
    · exact .inr ⟨h₁, e' ▸ h₂, e' ▸ e⟩
    · exact .inr ⟨h₁, h₃, e.trans e'⟩

theorem apply_eq (h : R.Same f r r') : f r.1 = f r'.1 := by
  rcases h.state with e | ⟨-, -, e⟩
  · rw [e]
  · exact e

/-- Alike results stay alike whatever is received next. -/
theorem andThen_run (h : R.Same f r r') (cs : List (List β)) :
    R.Same f (andThen r (R.run · cs)) (andThen r' (R.run · cs)) := by
  rcases h.state with e | ⟨h₁, h₂, e⟩
  · rw [Prod.ext e h.outputs]; exact refl _
  · simp only [andThen, run_of_want_eq_zero h₁, run_of_want_eq_zero h₂, List.append_nil]
    exact h

/-- Alike continuations of one result. -/
theorem andThen_congr {g g' : σ → σ × List ο} (h : R.Same f (g r.1) (g' r.1)) :
    R.Same f (andThen r g) (andThen r g') :=
  ⟨congrArg (r.2 ++ ·) h.outputs, h.state⟩

end Same

variable {τ : Type} {f : σ → τ} {Inv : σ → Prop}

theorem Joins.run_inv (hR : R.Joins f Inv) :
    ∀ {cs : List (List β)} {s : σ}, Inv s → R.Fits s cs → Inv (R.run s cs).1
  | [], _, hs, _ => hs
  | c :: cs, s, hs, hf => by
    by_cases h : R.want s = 0
    · rw [run_of_want_eq_zero h]; exact hs
    · obtain ⟨h₁, h₂, hf⟩ := hf.resolve_left h
      rw [run, if_neg h]
      exact Joins.run_inv hR (hR.recv_inv hs h₁ h₂) hf

/-- A completion is handled as its elements are, one by one. -/
theorem Joins.run_singletons (hR : R.Joins f Inv) :
    ∀ (c : List β) (s : σ), Inv s → 0 < c.length → c.length ≤ R.want s →
      R.Same f (R.run s (c.map fun x => [x])) (R.recv s c)
  | [], _, _, hc, _ => absurd hc (Nat.lt_irrefl 0)
  | [x], s, _, _, hw => by
    have h : R.want s ≠ 0 := by simp only [List.length_singleton] at hw; omega
    rw [List.map_singleton, run, if_neg h]
    have e : andThen (R.recv s [x]) (R.run · []) = R.recv s [x] := andThen_nil _
    rw [e]
    exact .refl _
  | x :: y :: c, s, hs, _, hw => by
    simp only [List.length_cons] at hw
    have h : R.want s ≠ 0 := by omega
    have hl : ([x] : List β).length + (y :: c).length ≤ R.want s := by
      simp only [List.length_cons, List.length_nil]; omega
    have hx : 0 < ([x] : List β).length := Nat.one_pos
    have hy : 0 < (y :: c).length := Nat.succ_pos _
    have hw' : R.want (R.recv s [x]).1 = R.want s - 1 := hR.want_recv hs hx hy hl
    have ih := Joins.run_singletons hR (y :: c) (R.recv s [x]).1
      (hR.recv_inv hs hx (by simp only [List.length_singleton]; omega)) hy
      (by rw [hw']; simp only [List.length_cons]; omega)
    rw [List.map_cons, run, if_neg h]
    exact (Same.andThen_congr ih).trans (hR.recv_append hs hx hy hl).symm

/-- A run does what handling the elements one by one does. -/
theorem Joins.run_same_singletons (hR : R.Joins f Inv) :
    ∀ (cs : List (List β)) (s : σ), Inv s → R.Fits s cs →
      R.Same f (R.run s cs) (R.run s (cs.flatten.map fun x => [x]))
  | [], _, _, _ => .refl _
  | c :: cs, s, hs, hf => by
    by_cases h : R.want s = 0
    · rw [run_of_want_eq_zero h, run_of_want_eq_zero h]; exact .refl _
    · obtain ⟨h₁, h₂, hf⟩ := hf.resolve_left h
      have ih := Joins.run_same_singletons hR cs _ (hR.recv_inv hs h₁ h₂) hf
      have hc := (hR.run_singletons c s hs h₁ h₂).symm
      rw [List.flatten_cons, List.map_append, run_append, run, if_neg h]
      exact (Same.andThen_congr ih).trans (hc.andThen_run _)

/-- Two ways of cutting the same elements into completions have alike results. -/
theorem Joins.run_same_of_flatten_eq (hR : R.Joins f Inv) {s : σ} (hs : Inv s) {cs ds : List (List β)}
    (hc : R.Fits s cs) (hd : R.Fits s ds) (h : cs.flatten = ds.flatten) :
    R.Same f (R.run s cs) (R.run s ds) :=
  (hR.run_same_singletons cs s hs hc).trans (h ▸ (hR.run_same_singletons ds s hs hd).symm)

end Receiver

end XH
