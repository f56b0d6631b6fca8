import Mathlib.Data.List.Basic

/-!
# A loop over what has been received so far

A connection keeps a state and the elements it has received and not used yet.
Whenever more arrive, a loop runs: each turn uses some of the elements and goes
on, or it waits for more, or it ends the connection. A turn that waits may have
changed the state. `Resumable` says that nothing depends on when the loop ran:
a turn that has gone on or has ended does so with more elements behind, and one
that has waited does next what the first one would have done. Then elements
that arrive in parts do what they do together (`Resumable.run_append`,
`Resumable.runParts_eq`).
-/

namespace XH

inductive Turn (σ β : Type) where
  /-- Waits in this state with these elements. -/
  | wait (s : σ) (rest : List β)
  /-- Ends the connection. -/
  | fail (s : σ)
  /-- Goes on. -/
  | next (s : σ) (rest : List β)

variable {σ β : Type}

/-- The loop; `fuel` bounds its turns. The result is the state and the elements
it waits with, or the state it has ended in. -/
def loopTurns (turn : σ → List β → Turn σ β) : (fuel : Nat) → σ → List β → Except σ (σ × List β)
  | 0, s, buf => .ok (s, buf)
  | fuel + 1, s, buf =>
    match turn s buf with
    | .wait s' rest => .ok (s', rest)
    | .fail s' => .error s'
    | .next s' rest => loopTurns turn fuel s' rest

/-- The elements arrive in parts, and the loop runs after each of them. -/
def runParts (run : σ → List β → Except σ (σ × List β)) (s : σ) (rest : List β) :
    List (List β) → Except σ (σ × List β)
  | [] => .ok (s, rest)
  | part :: parts => (run s (rest ++ part)).bind fun t => runParts run t.1 t.2 parts

/-- `left s buf` bounds the turns that are left. -/
structure Resumable (turn : σ → List β → Turn σ β) (left : σ → List β → Nat) : Prop where
  left_lt : ∀ {s s' : σ} {buf rest : List β}, turn s buf = .next s' rest → left s' rest < left s buf
  next_append : ∀ {s s' : σ} {buf rest : List β}, turn s buf = .next s' rest →
    ∀ more, turn s (buf ++ more) = .next s' (rest ++ more)
  fail_append : ∀ {s s' : σ} {buf : List β}, turn s buf = .fail s' → ∀ more, turn s (buf ++ more) = .fail s'
  wait_append : ∀ {s s' : σ} {buf rest : List β}, turn s buf = .wait s' rest →
    ∀ more, turn s (buf ++ more) = turn s' (rest ++ more)

namespace Resumable

variable {turn : σ → List β → Turn σ β} {left : σ → List β → Nat}

/-- The loop until it waits or ends. -/
def run (turn : σ → List β → Turn σ β) (left : σ → List β → Nat) (s : σ) (buf : List β) :
    Except σ (σ × List β) :=
  loopTurns turn (left s buf + 1) s buf

theorem loopTurns_eq (h : Resumable turn left) {fuel : Nat} {s : σ} {buf : List β} (hf : left s buf < fuel) :
    loopTurns turn fuel s buf = run turn left s buf := by
  suffices ∀ (n m : Nat) (s : σ) (buf : List β), left s buf < n → left s buf < m →
      loopTurns turn n s buf = loopTurns turn m s buf from this _ _ _ _ hf (Nat.lt_succ_self _)
  intro n
  induction n with
  | zero => intro m s buf hn; omega
  | succ n ih =>
    intro m s buf hn hm
    obtain ⟨m, rfl⟩ : ∃ k, m = k + 1 := ⟨m - 1, by omega⟩
    simp only [loopTurns]
    split
    · rfl
    · rfl
    · rename_i s' rest e
      have hl := h.left_lt e
      exact ih m s' rest (by omega) (by omega)

/-- The first turn of the loop. -/
theorem run_eq (h : Resumable turn left) (s : σ) (buf : List β) :
    run turn left s buf = match turn s buf with
      | .wait s' rest => .ok (s', rest)
      | .fail s' => .error s'
      | .next s' rest => run turn left s' rest := by
  rw [run, loopTurns]
  split
  · rfl
  · rfl
  · rename_i s' rest e
    exact h.loopTurns_eq (h.left_lt e)

/-- What arrives in two parts does what it does together. -/
theorem run_append (h : Resumable turn left) (s : σ) (buf more : List β) :
    run turn left s (buf ++ more) = (run turn left s buf).bind fun t => run turn left t.1 (t.2 ++ more) := by
  induction hn : left s buf using Nat.strongRecOn generalizing s buf with
  | _ n ih =>
    cases e : turn s buf with
    | wait s' rest =>
      rw [h.run_eq s buf, e, h.run_eq s (buf ++ more), h.wait_append e more]
      simp only [Except.bind]
      rw [h.run_eq s' (rest ++ more)]
    | fail s' =>
      rw [h.run_eq s buf, e, h.run_eq s (buf ++ more), h.fail_append e more]
      rfl
    | next s' rest =>
      rw [h.run_eq s buf, e, h.run_eq s (buf ++ more), h.next_append e more]
      exact ih _ (hn ▸ h.left_lt e) s' rest rfl

/-- What arrives in parts does what it does together. -/
theorem runParts_eq (h : Resumable turn left) (s : σ) (rest : List β) (part : List β) (parts : List (List β)) :
    runParts (run turn left) s rest (part :: parts) = run turn left s (rest ++ (part :: parts).flatten) := by
  induction parts generalizing s rest part with
  | nil =>
    rw [runParts, List.flatten_cons, List.flatten_nil, List.append_nil]
    cases run turn left s (rest ++ part) <;> rfl
  | cons p parts ih =>
    rw [runParts, List.flatten_cons, ← List.append_assoc, h.run_append s (rest ++ part)]
    cases run turn left s (rest ++ part) with
    | error s' => rfl
    | ok t => exact ih t.1 t.2 p

end Resumable

end XH
