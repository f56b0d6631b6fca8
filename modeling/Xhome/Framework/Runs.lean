import Xhome.Framework.Prog

/-!
# Runs of handlers

A program that starts (`r` is its outcome) and then runs handlers, each as one
step: `Rested` are the states between two handlers, `Visited` also those in
which a loop is still running. What the start establishes and every handler
keeps holds in all of them. `AtEach` is for what a run logs: a property of every
entry of a list, given the entries before it.
-/

namespace XH

variable {σ ε α : Type}

/-- The states between two handlers. -/
inductive Rested (r : Res σ α) (prog : ε → Prog σ Unit) : σ → Prop
  | start {a : α} {t : σ} : r = .ret a t → Rested r prog t
  | next {s t : σ} {e : ε} : Rested r prog s → prog e s = .ret () t → Rested r prog t

/-- The states that can be seen in a run. -/
inductive Visited (r : Res σ α) (prog : ε → Prog σ Unit) : σ → Prop
  | between {t : σ} : Rested r prog t → Visited r prog t
  | starting {t : σ} : r = .run t → Visited r prog t
  | during {s t : σ} {e : ε} : Rested r prog s → prog e s = .run t → Visited r prog t

variable {r : Res σ α} {prog : ε → Prog σ Unit} {I J : σ → Prop} {t : σ}

theorem Rested.invariant (h₀ : ∀ a s, r = .ret a s → I s) (hI : ∀ e s, I s → WP (prog e) s (fun _ u => I u) J)
    (h : Rested r prog t) : I t := by
  induction h with
  | start e => exact h₀ _ _ e
  | next _ e ih => exact (hI _ _ ih).ret e

theorem Visited.invariant (h₀ : ∀ a s, r = .ret a s → I s) (h₁ : ∀ s, r = .run s → J s) (hIJ : ∀ s, I s → J s)
    (hI : ∀ e s, I s → WP (prog e) s (fun _ u => I u) J) (h : Visited r prog t) : J t := by
  cases h with
  | between h => exact hIJ _ (h.invariant h₀ hI)
  | starting e => exact h₁ _ e
  | during h e => exact (hI _ _ (h.invariant h₀ hI)).run e

/-- The state after a list of handlers. -/
def runHandlers (prog : ε → Prog σ Unit) : σ → List ε → Option σ
  | s, [] => some s
  | s, e :: es => (prog e s).returned.bind fun t => runHandlers prog t es

/-- A state computed by a list of handlers is one of the run. -/
theorem Rested.of_runHandlers {s : σ} (hs : Rested r prog s) :
    ∀ {es : List ε}, runHandlers prog s es = some t → Rested r prog t := by
  intro es
  induction es generalizing s with
  | nil => intro h; cases h; exact hs
  | cons e es ih =>
    intro h
    obtain ⟨u, hu, h⟩ := Option.bind_eq_some_iff.mp h
    obtain ⟨_, hu⟩ := Res.returned_eq_some hu
    exact ih (.next hs hu) h

/-! ## Logs -/

/-- `P` holds of every entry with the entries before it. -/
def AtEach (P : List α → α → Prop) (l : List α) : Prop := ∀ pre x post, l = pre ++ x :: post → P pre x

variable {P : List α → α → Prop} {l l' : List α} {x : α}

theorem AtEach.nil : AtEach P [] := fun _ _ _ h => absurd h (by simp)

theorem AtEach.concat (h : AtEach P l) (hx : P l x) : AtEach P (l ++ [x]) := by
  intro pre y post e
  rcases List.eq_nil_or_concat post with rfl | ⟨post, z, rfl⟩
  · obtain ⟨rfl, hy⟩ := List.append_inj' e rfl
    cases hy
    exact hx
  · rw [List.concat_eq_append, ← List.cons_append, ← List.append_assoc] at e
    exact h pre y post (List.append_inj' e rfl).1

/-- Entries of which `P` holds after all others. -/
theorem AtEach.append (h : AtEach P l) (h' : ∀ pre, ∀ x ∈ l', P pre x) : AtEach P (l ++ l') := by
  induction l' generalizing l with
  | nil => rwa [List.append_nil]
  | cons x l' ih =>
    rw [← List.singleton_append, ← List.append_assoc]
    exact ih (h.concat (h' l x List.mem_cons_self)) fun pre y hy => h' pre y (List.mem_cons_of_mem _ hy)

end XH
