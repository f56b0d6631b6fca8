import Mathlib.Logic.Basic
import Mathlib.Order.Defs.Unbundled

/-!
# Programs with loops that may not end

A `Prog σ α` runs from a state and either returns (`ret`), is still running
when the iterations it was given are used up (`run`, with the state reached),
or has left the defined behaviour of the language (`ub`). A loop takes the
number of iterations it may use as a structural argument.

`WP m s Q I`: from `s`, `m` does not reach `ub`; if it returns, the value and
the state satisfy `Q`; if it is still running, the state satisfies `I`. The
rules follow the structure of the program.
-/

namespace XH

/-- The outcome of running a program. -/
inductive Res (σ α : Type) where
  | ret (a : α) (s : σ)
  | run (s : σ)
  | ub

/-- The state a program has returned in. -/
def Res.returned {σ α : Type} : Res σ α → Option σ
  | .ret _ s => some s
  | _ => none

theorem Res.returned_eq_some {σ α : Type} {r : Res σ α} {s : σ} (h : r.returned = some s) :
    ∃ a, r = .ret a s := by
  cases r with
  | ret a t => cases h; exact ⟨a, rfl⟩
  | run t => cases h
  | ub => cases h

/-- What is done with the value and the state a program has returned in. -/
def Res.andThen {σ α β : Type} (f : α → σ → Option β) : Res σ α → Option β
  | .ret a s => f a s
  | _ => none

theorem Res.andThen_eq_some {σ α β : Type} {f : α → σ → Option β} {r : Res σ α} {b : β}
    (h : r.andThen f = some b) : ∃ a s, r = .ret a s ∧ f a s = some b := by
  cases r with
  | ret a s => exact ⟨a, s, rfl, h⟩
  | run s => cases h
  | ub => cases h

/-- A program over the state `σ` with a result in `α`. -/
def Prog (σ α : Type) : Type := σ → Res σ α

namespace Prog

variable {σ α β : Type}

def bind (m : Prog σ α) (f : α → Prog σ β) : Prog σ β := fun s =>
  match m s with
  | .ret a t => f a t
  | .run t => .run t
  | .ub => .ub

instance : Monad (Prog σ) where
  pure a := fun s => .ret a s
  bind := bind

/-- The current state. -/
def get : Prog σ σ := fun s => .ret s s

/-- Changes the state. -/
def modify (f : σ → σ) : Prog σ Unit := fun s => .ret () (f s)

/-- Still running. -/
def running : Prog σ α := fun s => .run s

/-- Undefined behaviour. -/
def undefined : Prog σ α := fun _ => .ub

@[simp] theorem pure_apply (a : α) (s : σ) : (pure a : Prog σ α) s = .ret a s := rfl

theorem bind_apply (m : Prog σ α) (f : α → Prog σ β) (s : σ) :
    (m >>= f) s = match m s with
      | .ret a t => f a t
      | .run t => .run t
      | .ub => .ub := rfl

@[simp] theorem bind_ret {m : Prog σ α} {f : α → Prog σ β} {s t : σ} {a : α} (h : m s = .ret a t) :
    (m >>= f) s = f a t := by
  rw [bind_apply, h]

@[simp] theorem get_apply (s : σ) : (get : Prog σ σ) s = .ret s s := rfl
@[simp] theorem modify_apply (f : σ → σ) (s : σ) : modify f s = .ret () (f s) := rfl
@[simp] theorem running_apply (s : σ) : (running : Prog σ α) s = .run s := rfl
@[simp] theorem undefined_apply (s : σ) : (undefined : Prog σ α) s = .ub := rfl

/-- What a sequence returns, its first part returned before. -/
theorem ret_of_bind {m : Prog σ α} {f : α → Prog σ β} {s u : σ} {b : β}
    (h : (m >>= f) s = .ret b u) : ∃ a t, m s = .ret a t ∧ f a t = .ret b u := by
  rw [bind_apply] at h
  split at h
  · rename_i a t e; exact ⟨a, t, e, h⟩
  · cases h
  · cases h

end Prog

/-- The weakest precondition: `Q` of what `m` returns, `I` of where it is
still running, and no undefined behaviour. -/
def WP {σ α : Type} (m : Prog σ α) (s : σ) (Q : α → σ → Prop) (I : σ → Prop) : Prop :=
  match m s with
  | .ret a t => Q a t
  | .run t => I t
  | .ub => False

namespace WP

variable {σ α β : Type} {s : σ} {I : σ → Prop}

theorem intro {m : Prog σ α} {Q : α → σ → Prop} (hq : ∀ a t, m s = .ret a t → Q a t) (hi : ∀ t, m s = .run t → I t)
    (hub : m s ≠ .ub) : WP m s Q I := by
  unfold WP
  split
  · exact hq _ _ ‹_›
  · exact hi _ ‹_›
  · exact hub ‹_›

theorem of_ret {m : Prog σ α} {a : α} {t : σ} {Q : α → σ → Prop} (h : m s = .ret a t) (hq : Q a t) :
    WP m s Q I := by
  simp only [WP, h]; exact hq

theorem ret {m : Prog σ α} {Q : α → σ → Prop} (h : WP m s Q I) {a : α} {t : σ} (e : m s = .ret a t) :
    Q a t := by
  simpa only [WP, e] using h

theorem not_ub {m : Prog σ α} {Q : α → σ → Prop} (h : WP m s Q I) : m s ≠ .ub := fun e => by
  simp only [WP, e] at h

theorem run {m : Prog σ α} {Q : α → σ → Prop} (h : WP m s Q I) {t : σ} (e : m s = .run t) : I t := by
  simpa only [WP, e] using h

/-- What holds of the state, returned or still running. -/
theorem reached {m : Prog σ α} {P : σ → Prop} (h : WP m s (fun _ t => P t) P) {a : α} {t : σ}
    (e : m s = .ret a t ∨ m s = .run t) : P t := e.elim (fun e => h.ret e) fun e => h.run e

/-- A program that is never left running returns. -/
theorem returns {m : Prog σ α} {Q : α → σ → Prop} (h : WP m s Q (fun _ => False)) : ∃ a t, m s = .ret a t ∧ Q a t := by
  unfold WP at h
  cases e : m s with
  | ret a t => rw [e] at h; exact ⟨a, t, rfl, h⟩
  | run t => rw [e] at h; exact h.elim
  | ub => rw [e] at h; exact h.elim

theorem pure {a : α} {Q : α → σ → Prop} (h : Q a s) : WP (Pure.pure a : Prog σ α) s Q I := h

theorem get {Q : σ → σ → Prop} (h : Q s s) : WP Prog.get s Q I := h

theorem modify {f : σ → σ} {Q : Unit → σ → Prop} (h : Q () (f s)) : WP (Prog.modify f) s Q I := h

theorem running {Q : α → σ → Prop} (h : I s) : WP (Prog.running : Prog σ α) s Q I := h

theorem bind {m : Prog σ α} {f : α → Prog σ β} {Q : β → σ → Prop}
    (h : WP m s (fun a t => WP (f a) t Q I) I) : WP (m >>= f) s Q I := by
  unfold WP at h ⊢
  rw [Prog.bind_apply]
  cases e : m s with
  | ret a t => rw [e] at h; exact h
  | run t => rw [e] at h; exact h
  | ub => rw [e] at h; exact h

theorem mono {m : Prog σ α} {Q R : α → σ → Prop} {J : σ → Prop} (h : WP m s Q I)
    (hq : ∀ a t, Q a t → R a t) (hi : ∀ t, I t → J t) : WP m s R J := by
  unfold WP at h ⊢
  cases e : m s with
  | ret a t => rw [e] at h; exact hq a t h
  | run t => rw [e] at h; exact hi t h
  | ub => rw [e] at h; exact h

/-- What two triples say of one program. -/
theorem and {m : Prog σ α} {Q Q' : α → σ → Prop} {J : σ → Prop} (h : WP m s Q I) (h' : WP m s Q' J) :
    WP m s (fun a t => Q a t ∧ Q' a t) (fun t => I t ∧ J t) := by
  unfold WP at h h' ⊢
  cases e : m s with
  | ret a t => rw [e] at h h'; exact ⟨h, h'⟩
  | run t => rw [e] at h h'; exact ⟨h, h'⟩
  | ub => rw [e] at h; exact h

/-- The rule for a sequence whose first part is known by its own triple. -/
theorem seq {m : Prog σ α} {f : α → Prog σ β} {P : α → σ → Prop} {Q : β → σ → Prop}
    (h : WP m s P I) (hf : ∀ a t, P a t → WP (f a) t Q I) : WP (m >>= f) s Q I :=
  bind (h.mono hf fun _ hi => hi)

end WP

/-- `m` keeps the value of `get`, and has defined behaviour. -/
def Keeps {σ α τ : Type} (get : σ → τ) (m : Prog σ α) : Prop :=
  ∀ s, WP m s (fun _ t => get t = get s) (fun t => get t = get s)

namespace Keeps

variable {σ α β τ : Type} {get : σ → τ}

theorem pure (a : α) : Keeps get (Pure.pure a : Prog σ α) := fun _ => WP.pure rfl

theorem read : Keeps get (Prog.get : Prog σ σ) := fun _ => WP.get rfl

theorem running : Keeps get (Prog.running : Prog σ α) := fun _ => WP.running rfl

theorem modify {f : σ → σ} (h : ∀ s, get (f s) = get s) : Keeps get (Prog.modify f) := fun s => WP.modify (h s)

theorem bind {m : Prog σ α} {f : α → Prog σ β} (h : Keeps get m) (hf : ∀ a, Keeps get (f a)) :
    Keeps get (m >>= f) := fun s =>
  WP.seq ((h s).mono (fun _ _ e => e) fun _ e => e) fun a t e =>
    (hf a t).mono (fun _ _ e' => e'.trans e) fun _ e' => e'.trans e

theorem ite {c : Prop} [Decidable c] {m m' : Prog σ α} (h : Keeps get m) (h' : Keeps get m') :
    Keeps get (if c then m else m') := by
  split
  · exact h
  · exact h'

theorem comp {m : Prog σ α} {ρ : Type} (h : Keeps get m) (f : τ → ρ) : Keeps (fun s => f (get s)) m := fun s =>
  (h s).mono (fun _ _ e => congrArg f e) fun _ e => congrArg f e

theorem ret {m : Prog σ α} (h : Keeps get m) {s t : σ} {a : α} (e : m s = .ret a t) : get t = get s :=
  (h s).ret e

end Keeps

/-- `m` moves the state along `R`, and has defined behaviour. -/
def Moves {σ α : Type} (R : σ → σ → Prop) (m : Prog σ α) : Prop := ∀ s, WP m s (fun _ t => R s t) (R s)

namespace Moves

variable {σ α β : Type} {R : σ → σ → Prop}

theorem of_keeps [Std.Refl R] {τ : Type} {get : σ → τ} {m : Prog σ α} (h : Keeps get m)
    (hR : ∀ {s t}, get t = get s → R s t) : Moves R m := fun s => (h s).mono (fun _ _ e => hR e) fun _ e => hR e

theorem pure [Std.Refl R] (a : α) : Moves R (Pure.pure a : Prog σ α) := fun s => WP.pure (refl_of R s)

theorem read [Std.Refl R] : Moves R (Prog.get : Prog σ σ) := fun s => WP.get (refl_of R s)

theorem running [Std.Refl R] : Moves R (Prog.running : Prog σ α) := fun s => WP.running (refl_of R s)

theorem modify {f : σ → σ} (h : ∀ s, R s (f s)) : Moves R (Prog.modify f) := fun s => WP.modify (h s)

theorem bind [IsTrans σ R] {m : Prog σ α} {f : α → Prog σ β} (h : Moves R m) (hf : ∀ a, Moves R (f a)) :
    Moves R (m >>= f) := fun s =>
  WP.seq ((h s).mono (fun _ _ e => e) fun _ e => e) fun a t e =>
    (hf a t).mono (fun _ _ e' => trans_of R e e') fun _ e' => trans_of R e e'

theorem ite {c : Prop} [Decidable c] {m m' : Prog σ α} (h : Moves R m) (h' : Moves R m') :
    Moves R (if c then m else m') := by
  split
  · exact h
  · exact h'

end Moves

/-- `get` has the same value in both states. -/
def SameValue {σ τ : Type} (get : σ → τ) (s t : σ) : Prop := get t = get s

instance {σ τ : Type} (get : σ → τ) : Std.Refl (SameValue get) := ⟨fun _ => rfl⟩

instance {σ τ : Type} (get : σ → τ) : IsTrans σ (SameValue get) := ⟨fun _ _ _ h h' => h'.trans h⟩

theorem moves_sameValue {σ τ α : Type} {get : σ → τ} {m : Prog σ α} : Moves (SameValue get) m ↔ Keeps get m := Iff.rfl

end XH
