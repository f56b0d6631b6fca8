import Mathlib.Logic.Basic

/-!
# Runs of a step function

`Reach step ok s₀ s`: the state `s` is reached from `s₀` by events that the
step function accepts and whose steps meet `ok`. An invariant of the steps is
an invariant of the runs.
-/

namespace XH

variable {σ ε : Type}

/-- States reached by steps that meet `ok`. -/
inductive Reach (step : σ → ε → Option σ) (ok : σ → ε → Prop) (s₀ : σ) : σ → Prop
  | start : Reach step ok s₀ s₀
  | next {s t : σ} {e : ε} : Reach step ok s₀ s → ok s e → step s e = some t → Reach step ok s₀ t

/-- The last state of a run over a list of events whose steps meet `ok`. -/
def runIf (step : σ → ε → Option σ) (ok : σ → ε → Prop) [∀ s e, Decidable (ok s e)] : σ → List ε → Option σ
  | s, [] => some s
  | s, e :: es => if ok s e then (step s e).bind fun t => runIf step ok t es else none

theorem runIf_append {step : σ → ε → Option σ} {ok : σ → ε → Prop} [∀ s e, Decidable (ok s e)] {t u : σ} {es' : List ε}
    (h' : runIf step ok t es' = some u) :
    ∀ {s : σ} {es : List ε}, runIf step ok s es = some t → runIf step ok s (es ++ es') = some u
  | _, [], h => by cases h; exact h'
  | s, e :: es, h => by
    rw [runIf] at h
    split at h
    · obtain ⟨v, hv, h⟩ := Option.bind_eq_some_iff.mp h
      rw [List.cons_append, runIf, if_pos ‹_›, hv]
      exact runIf_append h' h
    · cases h

/-- The last state of a run over a list of events. -/
abbrev runEvents (step : σ → ε → Option σ) : σ → List ε → Option σ := runIf step fun _ _ => True

namespace Reach

variable {step : σ → ε → Option σ} {ok ok' : σ → ε → Prop} {s₀ s t : σ}

/-- An invariant that every step keeps holds in every state reached. -/
theorem invariant (Inv : σ → Prop) (h₀ : Inv s₀)
    (hstep : ∀ s e t, Inv s → ok s e → step s e = some t → Inv t) (h : Reach step ok s₀ s) : Inv s := by
  induction h with
  | start => exact h₀
  | next _ ho hs ih => exact hstep _ _ _ ih ho hs

theorem trans (h : Reach step ok s₀ s) (h' : Reach step ok s t) : Reach step ok s₀ t := by
  induction h' with
  | start => exact h
  | next _ ho hs ih => exact .next ih ho hs

theorem mono (h : Reach step ok s₀ s) (ho : ∀ s e, ok s e → ok' s e) : Reach step ok' s₀ s := by
  induction h with
  | start => exact .start
  | next _ h₁ h₂ ih => exact .next ih (ho _ _ h₁) h₂

theorem of_runIf [∀ s e, Decidable (ok s e)] {es : List ε} (h : runIf step ok s₀ es = some s) :
    Reach step ok s₀ s := by
  suffices hr : ∀ (es : List ε) (a : σ), Reach step ok s₀ a → runIf step ok a es = some s →
      Reach step ok s₀ s from hr es s₀ .start h
  intro es
  induction es with
  | nil => intro a ha e; cases e; exact ha
  | cons e es ih =>
    intro a ha hr
    rw [runIf] at hr
    split at hr
    · obtain ⟨b, hb, hr⟩ := Option.bind_eq_some_iff.mp hr
      exact ih b (.next ha ‹_› hb) hr
    · cases hr

end Reach

end XH
