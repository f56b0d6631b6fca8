import Mathlib.Data.List.Basic
import Mathlib.Data.List.TakeDrop
import Mathlib.Tactic.Linarith

/-!
# Windows of a list

A list is cut into windows of `n` elements, the last one with what is left over.
`Windowed` says what a reader of the list in pieces of any length has to hold
when it treats every window once: the windows behind it, and the part read of
the window at hand. The rules say how it goes on with a piece that does not
fill that window, and with one that does.
-/

namespace XH

variable {α β : Type}

/-- The window with the number `i`. -/
def window (n i : Nat) (l : List α) : List α := (l.drop (n * i)).take n

/-- The number of windows, the last one included. -/
def windowCount (n len : Nat) : Nat := len / n + if len % n ≠ 0 then 1 else 0

theorem window_append {n i : Nat} {l x : List α} (h : n * i + n ≤ l.length) : window n i (l ++ x) = window n i l := by
  rw [window, window, List.drop_append_of_le_length (by omega), List.take_append_of_le_length]
  rw [List.length_drop]
  omega

/-- The state of a reader behind the list `l`: `f` of the windows, by number,
and the elements of the window at hand. -/
structure Windowed (n : Nat) (f : List α → β) (l : List α) (done : List (Nat × β)) (rest : List α) : Prop where
  done : done = (List.range (l.length / n)).map fun i => (i, f (window n i l))
  rest : rest = l.drop (n * (l.length / n))

namespace Windowed

variable {n : Nat} {f : List α → β} {l x rest : List α} {done : List (Nat × β)}

theorem nil : Windowed n f ([] : List α) [] [] := ⟨by simp, by simp⟩

theorem length_rest (h : Windowed n f l done rest) : rest.length = l.length % n := by
  have := Nat.div_add_mod l.length n
  rw [h.rest, List.length_drop]
  omega

theorem length_done (h : Windowed n f l done rest) : done.length = l.length / n := by
  rw [h.done, List.length_map, List.length_range]

/-- The windows before stay as they are. -/
theorem map_window_append (n : Nat) (f : List α → β) (l x : List α) {k : Nat} (hk : n * k ≤ l.length) :
    ((List.range k).map fun i => (i, f (window n i (l ++ x)))) = (List.range k).map fun i => (i, f (window n i l)) := by
  apply List.map_congr_left
  intro i hi
  rw [window_append]
  have h : n * (i + 1) ≤ n * k := Nat.mul_le_mul_left n (List.mem_range.mp hi)
  rw [Nat.mul_succ] at h
  omega

/-- A piece that leaves the window at hand open. -/
theorem append_lt (hw : Windowed n f l done rest) (h : rest.length + x.length < n) :
    Windowed n f (l ++ x) done (rest ++ x) := by
  have hl := hw.length_rest
  have hdm := Nat.div_add_mod l.length n
  have hd : (l ++ x).length / n = l.length / n := by
    rw [List.length_append]
    exact Nat.div_eq_of_lt_le (by rw [Nat.mul_comm]; omega) (by rw [Nat.succ_mul, Nat.mul_comm]; omega)
  constructor
  · rw [hd, map_window_append n f l x (Nat.mul_div_le _ _), hw.done]
  · rw [hd, hw.rest, List.drop_append_of_le_length (Nat.mul_div_le _ _)]

/-- A piece that fills it. -/
theorem append_eq (hw : Windowed n f l done rest) (h : rest.length + x.length = n) (hx : 0 < x.length) :
    Windowed n f (l ++ x) (done ++ [(done.length, f (rest ++ x))]) [] := by
  have hl := hw.length_rest
  have hdm := Nat.div_add_mod l.length n
  have hlen : (l ++ x).length = n * (l.length / n + 1) := by
    rw [List.length_append, Nat.mul_succ]
    omega
  have hn : 0 < n := by omega
  have hd : (l ++ x).length / n = l.length / n + 1 := by rw [hlen, Nat.mul_div_cancel_left _ hn]
  have hlast : window n (l.length / n) (l ++ x) = rest ++ x := by
    rw [window, List.drop_append_of_le_length (Nat.mul_div_le _ _), ← hw.rest, List.take_of_length_le]
    rw [List.length_append, h]
  constructor
  · rw [hd, List.range_succ, List.map_append, map_window_append n f l x (Nat.mul_div_le _ _), ← hw.done, hw.length_done,
      List.map_singleton, hlast]
  · rw [hd, ← hlen, List.drop_length]

/-- At the end the part read of the window at hand is the last window. -/
theorem finish (hw : Windowed n f l done rest) (hn : 0 < n) (h : rest ≠ []) :
    done ++ [(done.length, f rest)] = (List.range (windowCount n l.length)).map fun i => (i, f (window n i l)) := by
  have hl := hw.length_rest
  have hr : l.length % n ≠ 0 := by rw [← hl]; exact fun e => h (List.length_eq_zero_iff.mp e)
  have hlast : window n (l.length / n) l = rest := by
    rw [window, ← hw.rest, List.take_of_length_le]
    rw [hl]
    exact (Nat.mod_lt _ hn).le
  rw [windowCount, if_pos hr, List.range_succ, List.map_append, ← hw.done, hw.length_done, List.map_singleton, hlast]

theorem finish_nil (hw : Windowed n f l done []) :
    done = (List.range (windowCount n l.length)).map fun i => (i, f (window n i l)) := by
  have h : l.length % n = 0 := hw.length_rest.symm
  rw [windowCount, if_neg (not_not.mpr h), Nat.add_zero, ← hw.done]

end Windowed

end XH
