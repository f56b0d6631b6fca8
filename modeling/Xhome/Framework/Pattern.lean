import Xhome.Framework.Tree

/-!
# Patterns with groups

The regular expressions of a web server's routes: literal characters, `.`,
`[…]{n}` and `[…]+` in parentheses, from `^` to `$`. `groups` is what the
parentheses have matched; a `+` takes as many characters as it can and gives
them back one by one. `.` matches all but a line feed, and `$` also in front of
a last one.
-/

namespace XH.Pattern

inductive Item where
  | lit (c : Char)
  | any
  /-- `([…]{n})` -/
  | times (p : Char → Bool) (n : Nat)
  /-- `([…]+)` -/
  | plus (p : Char → Bool)

/-- `[0-9]` -/
def digit (c : Char) : Bool := c.isDigit

/-- `[0-9a-f]` -/
def hex (c : Char) : Bool := c.isDigit || (decide ('a' ≤ c) && decide (c ≤ 'f'))

/-- The literal text. -/
def text (s : Name) : List Item := s.map .lit

/-- The first success with `k`, `k - 1`, … 1 characters. -/
def backtrack {α : Type} (f : Nat → Option α) : Nat → Option α
  | 0 => none
  | k + 1 => (f (k + 1)).orElse fun _ => backtrack f k

def groups : List Item → Name → Option (List Name)
  | [], s => if s = [] ∨ s = ['\n'] then some [] else none
  | .lit c :: is, s =>
    match s with
    | d :: s => if c = d then groups is s else none
    | [] => none
  | .any :: is, s =>
    match s with
    | d :: s => if d ≠ '\n' then groups is s else none
    | [] => none
  | .times p n :: is, s =>
    if (s.take n).length = n ∧ (s.take n).all p then (groups is (s.drop n)).map (s.take n :: ·) else none
  | .plus p :: is, s =>
    backtrack (fun k => (groups is (s.drop k)).map (s.take k :: ·)) (s.takeWhile p).length

theorem groups_lit (c : Char) (s : Name) (is : List Item) : groups (.lit c :: is) (c :: s) = groups is s := if_pos rfl

theorem groups_text (w s : Name) (is : List Item) : groups (text w ++ is) (w ++ s) = groups is s := by
  induction w with
  | nil => rfl
  | cons c w ih => exact (groups_lit c _ _).trans ih

theorem groups_times {p : Char → Bool} {w : Name} (h : ∀ c ∈ w, p c) (s : Name) (is : List Item) :
    groups (.times p w.length :: is) (w ++ s) = (groups is s).map (w :: ·) := by
  rw [groups, List.take_left, List.drop_left, if_pos ⟨rfl, List.all_eq_true.mpr h⟩]

/-- A `+` in front of a character that is not of the class. -/
theorem groups_plus {p : Char → Bool} {w : Name} (hw : w ≠ []) (h : ∀ c ∈ w, p c) {d : Char} (hd : p d = false)
    {s : Name} {is : List Item} {gs : List Name} (hs : groups is (d :: s) = some gs) :
    groups (.plus p :: is) (w ++ d :: s) = some (w :: gs) := by
  have ht : (w ++ d :: s).takeWhile p = w := by
    rw [List.takeWhile_append_of_pos h, List.takeWhile_cons_of_neg (by rw [hd]; exact Bool.false_ne_true), List.append_nil]
  obtain ⟨k, hk⟩ : ∃ k, w.length = k + 1 := Nat.exists_eq_succ_of_ne_zero fun e => hw (List.length_eq_zero_iff.mp e)
  rw [groups, ht, hk, backtrack, ← hk, List.take_left, List.drop_left, hs]
  rfl

/-! ## What a text that matches looks like -/

section
variable {is : List Item} {s : Name} {gs : List Name}

theorem eq_of_groups_text {w : Name} (h : groups (text w ++ is) s = some gs) : ∃ t, s = w ++ t ∧ groups is t = some gs := by
  induction w generalizing s with
  | nil => exact ⟨s, rfl, h⟩
  | cons c w ih =>
    cases s with
    | nil => cases h
    | cons d s =>
      have h : (if c = d then groups (text w ++ is) s else none) = some gs := h
      split at h
      · rename_i e
        obtain ⟨t, rfl, ht⟩ := ih h
        exact ⟨t, by rw [e]; rfl, ht⟩
      · cases h

theorem eq_of_groups_times {p : Char → Bool} {n : Nat} (h : groups (.times p n :: is) s = some gs) :
    ∃ w t gs', w.length = n ∧ (∀ c ∈ w, p c) ∧ s = w ++ t ∧ gs = w :: gs' ∧ groups is t = some gs' := by
  rw [groups] at h
  split at h
  · rename_i hw
    obtain ⟨gs', ht, rfl⟩ := Option.map_eq_some_iff.mp h
    exact ⟨_, _, gs', hw.1, List.all_eq_true.mp hw.2, (List.take_append_drop n s).symm, rfl, ht⟩
  · cases h

theorem exists_of_backtrack {α : Type} {f : Nat → Option α} {a : α} :
    ∀ {k : Nat}, backtrack f k = some a → ∃ j, 0 < j ∧ j ≤ k ∧ f j = some a
  | k + 1, h => by
    rw [backtrack] at h
    cases hf : f (k + 1) with
    | some b => rw [hf] at h; exact ⟨k + 1, Nat.succ_pos k, Nat.le_refl _, hf.trans h⟩
    | none =>
      rw [hf] at h
      obtain ⟨j, h₁, h₂, h₃⟩ := exists_of_backtrack h
      exact ⟨j, h₁, Nat.le_succ_of_le h₂, h₃⟩

theorem eq_of_groups_plus {p : Char → Bool} (h : groups (.plus p :: is) s = some gs) :
    ∃ w t gs', w ≠ [] ∧ (∀ c ∈ w, p c) ∧ s = w ++ t ∧ gs = w :: gs' ∧ groups is t = some gs' := by
  rw [groups] at h
  obtain ⟨j, hpos, hle, hf⟩ := exists_of_backtrack h
  obtain ⟨gs', ht, rfl⟩ := Option.map_eq_some_iff.mp hf
  have hlen : j ≤ s.length := Nat.le_trans hle (List.takeWhile_prefix p).length_le
  refine ⟨_, _, gs', fun e => ?_, fun c hc => ?_, (List.take_append_drop j s).symm, rfl, ht⟩
  · have := congrArg List.length e
    rw [List.length_take, List.length_nil] at this
    omega
  · have hpre : s.take j <+: s.takeWhile p := List.prefix_of_prefix_length_le (List.take_prefix j s)
      (List.takeWhile_prefix p) (by rw [List.length_take]; omega)
    exact List.mem_takeWhile_imp (hpre.subset hc)

end

/-! ## The parts of a path -/

theorem splitOn_append {c : Char} {w : Name} (h : c ∉ w) (s : Name) :
    (w ++ s).splitOn c = (s.splitOn c).modifyHead (w ++ ·) := by
  induction w with
  | nil => exact (congrFun List.modifyHead_id _).symm
  | cons d w ih =>
    have hd : (d == c) = false := beq_eq_false_iff_ne.mpr fun e => h (e ▸ List.mem_cons_self)
    rw [List.cons_append, List.splitOn_cons_eq_if_modifyHead, hd, ih fun hc => h (List.mem_cons_of_mem _ hc)]
    exact List.modifyHead_modifyHead

theorem splitOn_part {c : Char} {w : Name} (h : c ∉ w) (s : Name) : (w ++ c :: s).splitOn c = w :: s.splitOn c := by
  rw [List.splitOn_append_cons_self, List.splitOn_eq_singleton h]
  rfl

end XH.Pattern
