import Mathlib.Logic.Basic

/-!
# Programs that raise exceptions

`EStateM ε σ` with the rules for its runs. `Yields m s Q E`: from `s`, `m`
returns a value in a state with `Q`, or raises an exception in a state with `E`.
The rules are equations; with them a run is followed through its sequences and
its handlers. An exception keeps the changes of the state.
-/

namespace XH.Raising

variable {ε σ τ α β : Type}

def Yields (m : EStateM ε σ α) (s : σ) (Q : α → σ → Prop) (E : ε → σ → Prop) : Prop :=
  match m s with
  | .ok a t => Q a t
  | .error e t => E e t

/-- The value, or that there is none. -/
def attempt (m : EStateM ε σ α) : EStateM ε σ (Option α) := tryCatch (some <$> m) fun _ => pure none

/-- The value, or an exception. -/
def orRaise : Option α → EStateM Unit σ α
  | some a => pure a
  | none => throw ()

/-- A program on a part of the state. -/
def focus (get : τ → σ) (set : σ → τ → τ) (m : EStateM ε σ α) : EStateM ε τ α := fun t =>
  match m (get t) with
  | .ok a s => .ok a (set s t)
  | .error e s => .error e (set s t)

section
variable {s : σ} {Q R : α → σ → Prop} {E F : ε → σ → Prop}

@[simp] theorem yields_pure (a : α) : Yields (pure a : EStateM ε σ α) s Q E ↔ Q a s := Iff.rfl

@[simp] theorem yields_throw (e : ε) : Yields (throw e : EStateM ε σ α) s Q E ↔ E e s := Iff.rfl

@[simp] theorem yields_get {Q : σ → σ → Prop} : Yields (get : EStateM ε σ σ) s Q E ↔ Q s s := Iff.rfl

@[simp] theorem yields_modify (f : σ → σ) {Q : Unit → σ → Prop} :
    Yields (modify f : EStateM ε σ Unit) s Q E ↔ Q () (f s) := Iff.rfl

theorem bind_apply (m : EStateM ε σ α) (f : α → EStateM ε σ β) (s : σ) :
    (m >>= f) s = match m s with
      | .ok a t => f a t
      | .error e t => .error e t := rfl

@[simp] theorem yields_bind (m : EStateM ε σ α) (f : α → EStateM ε σ β) {Q : β → σ → Prop} :
    Yields (m >>= f) s Q E ↔ Yields m s (fun a t => Yields (f a) t Q E) E := by
  unfold Yields
  rw [bind_apply]
  cases m s <;> rfl

@[simp] theorem yields_tryCatch (m : EStateM ε σ α) (f : ε → EStateM ε σ α) :
    Yields (tryCatch m f) s Q E ↔ Yields m s Q fun e t => Yields (f e) t Q E := by
  have h : (tryCatch m f : EStateM ε σ α) s = match m s with
      | .ok a t => .ok a t
      | .error e t => f e t := by
    show EStateM.tryCatch m f s = _
    unfold EStateM.tryCatch
    cases m s <;> rfl
  unfold Yields
  rw [h]
  cases m s <;> rfl

@[simp] theorem yields_map (f : α → β) (m : EStateM ε σ α) {Q : β → σ → Prop} :
    Yields (f <$> m) s Q E ↔ Yields m s (fun a t => Q (f a) t) E := by
  have h : (f <$> m : EStateM ε σ β) s = match m s with
      | .ok a t => .ok (f a) t
      | .error e t => .error e t := rfl
  unfold Yields
  rw [h]
  cases m s <;> rfl

@[simp] theorem yields_attempt (m : EStateM ε σ α) {Q : Option α → σ → Prop} :
    Yields (attempt m) s Q E ↔ Yields m s (fun a t => Q (some a) t) fun _ t => Q none t := by
  unfold attempt
  rw [yields_tryCatch, yields_map]
  rfl

@[simp] theorem yields_focus {get : τ → σ} {set : σ → τ → τ} (m : EStateM ε σ α) {t : τ} {Q : α → τ → Prop}
    {E : ε → τ → Prop} :
    Yields (focus get set m) t Q E ↔ Yields m (get t) (fun a s => Q a (set s t)) fun e s => E e (set s t) := by
  unfold Yields focus
  cases m (get t) <;> rfl

theorem yields_ite (P : Prop) [Decidable P] (m m' : EStateM ε σ α) :
    Yields (if P then m else m') s Q E ↔ if P then Yields m s Q E else Yields m' s Q E := by
  split <;> rfl

theorem Yields.mono {m : EStateM ε σ α} (h : Yields m s Q E) (hq : ∀ a t, Q a t → R a t) (he : ∀ e t, E e t → F e t) :
    Yields m s R F := by
  unfold Yields at h ⊢
  split
  · rename_i h'; rw [h'] at h; exact hq _ _ h
  · rename_i h'; rw [h'] at h; exact he _ _ h

/-- The rule of consequence for a program that raises nothing. -/
theorem Yields.imp {m : EStateM ε σ α} (h : Yields m s Q fun _ _ => False) (hq : ∀ a t, Q a t → R a t) : Yields m s R E :=
  h.mono hq fun _ _ hf => hf.elim

theorem Yields.total {m : EStateM ε σ α} (h : Yields m s Q fun _ _ => False) : Yields m s Q E := h.imp fun _ _ hq => hq

/-- What two triples say of one run. -/
theorem Yields.and {m : EStateM ε σ α} (h : Yields m s Q E) (h' : Yields m s R F) :
    Yields m s (fun a t => Q a t ∧ R a t) fun e t => E e t ∧ F e t := by
  unfold Yields at h h' ⊢
  cases e : m s with
  | ok a t => rw [e] at h h'; exact ⟨h, h'⟩
  | error x t => rw [e] at h h'; exact ⟨h, h'⟩

theorem Yields.elim {m : EStateM ε σ α} (h : Yields m s (fun _ _ => False) fun _ _ => False) : False := by
  unfold Yields at h
  cases e : m s with
  | ok a t => rw [e] at h; exact h
  | error x t => rw [e] at h; exact h

theorem Yields.of_forall {m : EStateM ε σ α} (hq : ∀ a t, Q a t) (he : ∀ e t, E e t) : Yields m s Q E := by
  unfold Yields
  split
  · exact hq _ _
  · exact he _ _

/-- The rule for a sequence whose first part is known by its own triple. -/
theorem Yields.seq {m : EStateM ε σ α} {f : α → EStateM ε σ β} {P : α → σ → Prop} {Q : β → σ → Prop}
    (h : Yields m s P E) (hf : ∀ a t, P a t → Yields (f a) t Q E) : Yields (m >>= f) s Q E :=
  (yields_bind m f).mpr (h.mono hf fun _ _ he => he)

/-- Where it does not matter whether there is a value. -/
theorem Yields.of_orRaise {s : σ} {Q : α → σ → Prop} {E : Unit → σ → Prop} (a : Option α) (hq : ∀ a, Q a s) (he : E () s) :
    Yields (orRaise a) s Q E := by
  cases a with
  | none => exact he
  | some a => exact hq a

end

/-! ## Exceptions alone -/

/-- From `s`, `m` raises no exception. -/
def Returns (m : EStateM ε σ α) (s : σ) : Prop := Yields m s (fun _ _ => True) fun _ _ => False

/-- The state behind `m`, whether it returns or raises. -/
def leaves (m : EStateM ε σ α) (s : σ) : σ :=
  match m s with
  | .ok _ t => t
  | .error _ t => t

section
variable {m : EStateM ε σ α} {s : σ} {P : σ → Prop}

theorem yields_state : (Yields m s (fun _ t => P t) fun _ t => P t) ↔ P (leaves m s) := by
  unfold Yields leaves
  cases m s <;> rfl

theorem yields_returns : (Yields m s (fun _ t => P t) fun _ _ => False) ↔ Returns m s ∧ P (leaves m s) := by
  unfold Returns Yields leaves
  cases m s
  · exact ⟨fun h => ⟨trivial, h⟩, And.right⟩
  · exact ⟨False.elim, And.left⟩

theorem yields_of_not_returns (h : ¬Returns m s) : Yields m s (fun _ _ => False) fun _ _ => True := by
  unfold Returns Yields at h
  unfold Yields
  split at h
  · exact absurd trivial h
  · trivial

theorem returns_attempt : Returns (attempt m) s := by
  unfold Returns
  rw [yields_attempt, yields_state]
  trivial

/-- There is a value if the program has returned. -/
theorem attempt_isSome : Yields (attempt m) s (fun a _ => a.isSome ↔ Returns m s) fun _ _ => False := by
  rw [yields_attempt]
  unfold Returns Yields
  cases m s
  · exact iff_of_true rfl trivial
  · exact iff_of_false Bool.false_ne_true id

theorem returns_orRaise {a : Option α} : Returns (orRaise a) s ↔ a.isSome := by
  cases a with
  | none => exact (Bool.false_eq_true ▸ Iff.rfl)
  | some a => exact iff_of_true trivial rfl

theorem returns_pure (a : α) : Returns (pure a : EStateM ε σ α) s := trivial

/-- A sequence that has no use for the value of its first part. -/
theorem returns_seq (m' : EStateM ε σ β) : Returns (m >>= fun _ => m') s ↔ Returns m s ∧ Returns m' (leaves m s) := by
  rw [← yields_returns (P := Returns m')]
  exact yields_bind m fun _ => m'

theorem returns_get {f : σ → EStateM ε σ β} : Returns (get >>= f) s ↔ Returns (f s) s := Iff.rfl

theorem returns_bind_ok {a : α} {t : σ} (h : m s = .ok a t) {f : α → EStateM ε σ β} :
    Returns (m >>= f) s ↔ Returns (f a) t := by
  unfold Returns
  rw [yields_bind]
  unfold Yields
  rw [h]

theorem Yields.exists_ok {Q : α → σ → Prop} (h : Yields m s Q fun _ _ => False) :
    ∃ a, m s = .ok a (leaves m s) ∧ Q a (leaves m s) := by
  unfold Yields at h
  unfold leaves
  split at h
  · rename_i a t e
    rw [e]
    exact ⟨a, rfl, h⟩
  · exact h.elim

end

end XH.Raising
