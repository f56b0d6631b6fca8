import Mathlib.Data.List.Basic

/-!
# Receiving from a stream in segments

The elements of a stream come in segments. `recv n` returns at most `n`
elements of the first segment that has any, however much follows it, and waits
while there is none. Any sequence of results that a stream socket can give for
a stream is that of a division of it into segments. A part is received whole
if and only if it lies in one segment (`recv_of_whole`, `whole_of_recv`).
-/

namespace XH

variable {α : Type}

/-- A call for `n` elements: those received and the segments left, or `none` while it waits. -/
def recv (n : Nat) : List (List α) → Option (List α × List (List α))
  | [] => none
  | [] :: segs => recv n segs
  | (x :: xs) :: segs => some ((x :: xs).take n, (x :: xs).drop n :: segs)

/-- Each segment consists of whole parts. -/
def Whole (segs parts : List (List α)) : Prop :=
  ∃ groups : List (List (List α)), groups.map List.flatten = segs ∧ groups.flatten = parts

variable {n : Nat} {p x : List α} {segs segs' parts : List (List α)}

/-- What is received and what is left are the stream. -/
theorem recv_flatten (h : recv n segs = some (x, segs')) : x ++ segs'.flatten = segs.flatten := by
  induction segs with
  | nil => cases h
  | cons s segs ih =>
    cases s with
    | nil => exact ih h
    | cons y ys =>
      cases h
      rw [List.flatten_cons, List.flatten_cons, ← List.append_assoc, List.take_append_drop]

theorem recv_of_whole (hp : p ≠ []) (h : Whole segs (p :: parts)) :
    ∃ segs', recv p.length segs = some (p, segs') ∧ Whole segs' parts := by
  obtain ⟨groups, rfl, hg⟩ := h
  induction groups with
  | nil => cases hg
  | cons g gs ih =>
    cases g with
    | nil => exact ih hg
    | cons q g =>
      cases hg
      obtain ⟨y, ys, rfl⟩ := List.exists_cons_of_ne_nil hp
      refine ⟨g.flatten :: gs.map List.flatten, ?_, g :: gs, rfl, rfl⟩
      show recv _ ((y :: (ys ++ g.flatten)) :: gs.map List.flatten) = _
      rw [recv]
      have ht : (y :: (ys ++ g.flatten)).take (y :: ys).length = y :: ys := List.take_left
      have hd : (y :: (ys ++ g.flatten)).drop (y :: ys).length = g.flatten := List.drop_left
      rw [ht, hd]

theorem whole_of_recv (h : recv p.length segs = some (p, segs')) (hw : Whole segs' parts) : Whole segs (p :: parts) := by
  induction segs with
  | nil => cases h
  | cons s segs ih =>
    cases s with
    | nil =>
      obtain ⟨groups, hm, hf⟩ := ih h
      exact ⟨[] :: groups, by rw [List.map_cons, hm]; rfl, hf⟩
    | cons y ys =>
      rw [recv, Option.some.injEq, Prod.mk.injEq] at h
      obtain ⟨ht, rfl⟩ := h
      obtain ⟨groups, hm, rfl⟩ := hw
      cases groups with
      | nil => cases hm
      | cons g gs =>
        rw [List.map_cons, List.cons.injEq] at hm
        refine ⟨(p :: g) :: gs, ?_, rfl⟩
        have hy : p ++ (y :: ys).drop p.length = y :: ys := by
          have := List.take_append_drop p.length (y :: ys)
          rwa [ht] at this
        rw [List.map_cons, List.flatten_cons, hm.1, hm.2, hy]

end XH
