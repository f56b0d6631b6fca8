import Mathlib.Data.List.DropRight

/-!
# Lines and fields of a text

`readLines` are the lines of a text that end with `cr`, with `lf` or with both,
`split` the fields of a line between separators, without the empty ones at its
end.

* `readLines_records`, `length_readLines_iff`: a list of records, each followed
  by `cr` and `lf`, has one line for each record exactly if no record has a line
  end inside, and these lines are the records then;
* `head_split`: the first field ends at the first separator.
-/

namespace XH

variable {α : Type} [DecidableEq α]

/-! ## Lines -/

/-- The lines of a text behind `s`, the part of the first one that has been read.
Behind a `cr`, `skipLF` passes over an `lf`. -/
def readLines (cr lf : α) : (skipLF : Bool) → (s : List α) → List α → List (List α)
  | _, s, [] => if s = [] then [] else [s]
  | skipLF, s, c :: cs =>
    if c = lf then
      if skipLF then readLines cr lf false s cs else s :: readLines cr lf false [] cs
    else if c = cr then s :: readLines cr lf true [] cs
    else readLines cr lf false (s ++ [c]) cs

/-- The text without a line end inside. -/
abbrev OneLine (cr lf : α) (l : List α) : Prop := cr ∉ l ∧ lf ∉ l

section
variable {cr lf : α} (hne : cr ≠ lf)
include hne

theorem readLines_crlf (skipLF : Bool) (s t : List α) :
    readLines cr lf skipLF s (cr :: lf :: t) = s :: readLines cr lf false [] t := by
  rw [readLines, if_neg hne, if_pos rfl, readLines, if_pos rfl]
  rfl

/-- A record without a line end inside is a line. -/
theorem readLines_record {l : List α} (h : OneLine cr lf l) (s t : List α) :
    readLines cr lf false s (l ++ cr :: lf :: t) = (s ++ l) :: readLines cr lf false [] t := by
  induction l generalizing s with
  | nil => rw [List.nil_append, readLines_crlf hne, List.append_nil]
  | cons c l ih =>
    obtain ⟨hcr, hlf⟩ := h
    rw [List.mem_cons, not_or] at hcr hlf
    rw [List.cons_append, readLines, if_neg (Ne.symm hlf.1), if_neg (Ne.symm hcr.1), ih ⟨hcr.2, hlf.2⟩,
      List.append_assoc, List.singleton_append]

/-- A record has one line at least. -/
theorem readLines_some (skipLF : Bool) (s l t : List α) :
    ∃ ls, readLines cr lf skipLF s (l ++ cr :: lf :: t) = ls ++ readLines cr lf false [] t ∧ 1 ≤ ls.length := by
  induction l generalizing skipLF s with
  | nil => exact ⟨[s], readLines_crlf hne skipLF s t, Nat.le_refl 1⟩
  | cons c l ih =>
    rw [List.cons_append, readLines]
    split
    · split
      · exact ih false s
      · obtain ⟨ls, he, -⟩ := ih false []
        exact ⟨s :: ls, by rw [he]; rfl, Nat.le_add_left _ _⟩
    · split
      · obtain ⟨ls, he, -⟩ := ih true []
        exact ⟨s :: ls, by rw [he]; rfl, Nat.le_add_left _ _⟩
      · exact ih false (s ++ [c])

/-- With a line end inside it has two. -/
theorem readLines_two {l : List α} (h : ¬ OneLine cr lf l) (s t : List α) :
    ∃ ls, readLines cr lf false s (l ++ cr :: lf :: t) = ls ++ readLines cr lf false [] t ∧ 2 ≤ ls.length := by
  induction l generalizing s with
  | nil => exact absurd ⟨List.not_mem_nil, List.not_mem_nil⟩ h
  | cons c l ih =>
    rw [List.cons_append, readLines]
    by_cases hlf : c = lf
    · obtain ⟨ls, he, hl⟩ := readLines_some hne false [] l t
      rw [if_pos hlf]
      exact ⟨s :: ls, by rw [he]; rfl, Nat.succ_le_succ hl⟩
    · rw [if_neg hlf]
      by_cases hcr : c = cr
      · obtain ⟨ls, he, hl⟩ := readLines_some hne true [] l t
        rw [if_pos hcr]
        exact ⟨s :: ls, by rw [he]; rfl, Nat.succ_le_succ hl⟩
      · rw [if_neg hcr]
        refine ih (fun ho => h ⟨?_, ?_⟩) (s ++ [c])
        · exact fun hm => (List.mem_cons.mp hm).elim (fun e => hcr e.symm) ho.1
        · exact fun hm => (List.mem_cons.mp hm).elim (fun e => hlf e.symm) ho.2

/-- The records, each with its line end. -/
def records (cr lf : α) (recs : List (List α)) : List α := recs.flatMap fun r => r ++ [cr, lf]

omit [DecidableEq α] hne in
theorem records_cons (r : List α) (recs : List (List α)) : records cr lf (r :: recs) = r ++ cr :: lf :: records cr lf recs := by
  rw [records, List.flatMap_cons, List.append_assoc]
  rfl

/-- Records without line ends inside are the lines. -/
theorem readLines_records {recs : List (List α)} (h : ∀ r ∈ recs, OneLine cr lf r) :
    readLines cr lf false [] (records cr lf recs) = recs := by
  induction recs with
  | nil => rfl
  | cons r recs ih =>
    rw [records_cons, readLines_record hne (h r List.mem_cons_self), List.nil_append, ih fun r' hr => h r' (List.mem_cons_of_mem r hr)]

theorem length_le_readLines (recs : List (List α)) :
    recs.length ≤ (readLines cr lf false [] (records cr lf recs)).length := by
  induction recs with
  | nil => exact Nat.zero_le _
  | cons r recs ih =>
    obtain ⟨ls, he, hl⟩ := readLines_some hne false [] r (records cr lf recs)
    rw [records_cons, he, List.length_append, List.length_cons]
    omega

/-- One line for each record. -/
theorem length_readLines_iff (recs : List (List α)) :
    (readLines cr lf false [] (records cr lf recs)).length = recs.length ↔
      ∀ r ∈ recs, OneLine cr lf r := by
  refine ⟨fun h => ?_, fun h => by rw [readLines_records hne h]⟩
  induction recs with
  | nil => exact fun _ hr => by cases hr
  | cons r recs ih =>
    rw [records_cons] at h
    have hle := length_le_readLines hne recs
    by_cases hr : OneLine cr lf r
    · rw [readLines_record hne hr, List.length_cons, List.length_cons] at h
      exact List.forall_mem_cons.mpr ⟨hr, ih (by omega)⟩
    · obtain ⟨ls, he, hl⟩ := readLines_two hne hr [] (records cr lf recs)
      rw [he, List.length_append, List.length_cons] at h
      omega

end

/-! ## Fields -/

/-- The fields of a line, without the empty ones at its end; a line without a
separator is its only field. -/
def split (sep : α) (l : List α) : List (List α) :=
  if sep ∈ l then (l.splitOn sep).rdropWhile List.isEmpty else [l]

/-- What is not a separator lies in a field. -/
theorem exists_mem_splitOn {sep x : α} (hx : x ≠ sep) {l : List α} (h : x ∈ l) : ∃ f ∈ l.splitOn sep, x ∈ f := by
  induction l with
  | nil => cases h
  | cons c l ih =>
    rw [List.splitOn_cons_eq_if_modifyHead]
    split
    · rename_i hc
      obtain ⟨f, hf, hxf⟩ := ih ((List.mem_cons.mp h).resolve_left fun e => hx (e.trans (beq_iff_eq.mp hc)))
      exact ⟨f, List.mem_cons_of_mem _ hf, hxf⟩
    · obtain ⟨g, gs, hg⟩ := List.exists_cons_of_ne_nil (List.splitOn_ne_nil sep l)
      rw [hg] at ih ⊢
      rw [List.modifyHead_cons]
      rcases List.mem_cons.mp h with rfl | hl
      · exact ⟨x :: g, List.mem_cons_self, List.mem_cons_self⟩
      · obtain ⟨f, hf, hxf⟩ := ih hl
        rcases List.mem_cons.mp hf with rfl | hf
        · exact ⟨c :: f, List.mem_cons_self, List.mem_cons_of_mem _ hxf⟩
        · exact ⟨f, List.mem_cons_of_mem _ hf, hxf⟩

/-- The first field, of a line that does not end with it. -/
theorem head_split {sep : α} {a b : List α} (ha : sep ∉ a) (hb : ∃ x ∈ b, x ≠ sep) :
    (split sep (a ++ sep :: b)).head? = some a := by
  obtain ⟨x, hx, hne⟩ := hb
  obtain ⟨f, hf, hxf⟩ := exists_mem_splitOn hne hx
  have hmem : sep ∈ a ++ sep :: b := List.mem_append_right _ List.mem_cons_self
  rw [split, if_pos hmem, List.splitOn_append_cons_self_of_not_mem ha]
  have hkept : (a :: b.splitOn sep).rdropWhile List.isEmpty ≠ [] := fun e => by
    have hempty := List.rdropWhile_eq_nil_iff.mp e f (List.mem_cons_of_mem _ hf)
    rw [List.isEmpty_iff.mp hempty] at hxf
    cases hxf
  obtain ⟨g, gs, hg⟩ := List.exists_cons_of_ne_nil hkept
  have hprefix := List.rdropWhile_prefix List.isEmpty (l := a :: b.splitOn sep)
  rw [hg] at hprefix ⊢
  rw [(List.cons_prefix_cons.mp hprefix).1]
  rfl

end XH
