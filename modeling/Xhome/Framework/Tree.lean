import Xhome.Framework.Word
import Mathlib.Data.List.Basic
import Mathlib.Data.List.TakeWhile

/-!
# A file tree

File names as lists of characters, with the decimal names, `stem`, `extension`
and `atoi` the sources apply to them; paths as lists of names; and a tree of
directories and files with the operations of `boost::filesystem`.
-/

namespace XH

abbrev Name := List Char
abbrev Path := List Name

instance : LawfulBEq Name := inferInstance
instance : LawfulBEq Path := inferInstance

/-! ## Names -/

/-- `n` in decimal. -/
def decimal (n : Nat) : Name := Nat.toDigits 10 n

/-- `path::stem`: the name up to its last dot. -/
def stem (n : Name) : Name :=
  if '.' ∈ n then (n.reverse.dropWhile (· ≠ '.')).tail.reverse else n

/-- `path::extension`: the name from its last dot on. -/
def extension (n : Name) : Name :=
  if '.' ∈ n then '.' :: (n.reverse.takeWhile (· ≠ '.')).reverse else []

/-- A value returned by `strtol` where a `long` has 32 bits. -/
def clampLong (z : Int) : Int := max (-2 ^ 31) (min z (2 ^ 31 - 1))

/-- `atoi`: white space, an optional sign, digits; the rest is ignored. -/
def atoi (n : Name) : Int :=
  match n.dropWhile (· ∈ [' ', '\t', '\n', '\x0b', '\x0c', '\r']) with
  | '-' :: ds => clampLong (-(Nat.ofDigitChars 10 (ds.takeWhile Char.isDigit) 0 : Nat))
  | '+' :: ds => clampLong (Nat.ofDigitChars 10 (ds.takeWhile Char.isDigit) 0 : Nat)
  | ds => clampLong (Nat.ofDigitChars 10 (ds.takeWhile Char.isDigit) 0 : Nat)

/-- An `int` stored into a 32-bit unsigned variable. -/
def u32OfInt (z : Int) : Nat := (z % 2 ^ 32).toNat

theorem isDigit_of_mem_decimal {n : Nat} {c : Char} (h : c ∈ decimal n) : c.isDigit :=
  Nat.isDigit_of_mem_toDigits (by decide) (by decide) h

theorem dot_not_mem_decimal (n : Nat) : '.' ∉ decimal n := fun h => by
  have := isDigit_of_mem_decimal h
  simp at this

theorem decimal_ne_nil (n : Nat) : decimal n ≠ [] := Nat.toDigits_ne_nil

theorem decimal_inj {m n : Nat} (h : decimal m = decimal n) : m = n := by
  rw [← Nat.ofDigitChars_ten_toDigits (n := m), ← Nat.ofDigitChars_ten_toDigits (n := n)]
  exact congrArg (Nat.ofDigitChars 10 · 0) h

theorem stem_append {a b : Name} (hb : '.' ∉ b) : stem (a ++ '.' :: b) = a := by
  have hd : ((a ++ '.' :: b).reverse.dropWhile (· ≠ '.')) = '.' :: a.reverse := by
    rw [List.reverse_append, List.reverse_cons, List.append_assoc, List.dropWhile_append_of_pos]
    · simp
    · intro c hc
      simpa using fun e : c = '.' => hb (e ▸ List.mem_reverse.mp hc)
  rw [stem, if_pos (by simp), hd, List.tail_cons, List.reverse_reverse]

theorem extension_append {a b : Name} (hb : '.' ∉ b) : extension (a ++ '.' :: b) = '.' :: b := by
  have ht : ((a ++ '.' :: b).reverse.takeWhile (· ≠ '.')) = b.reverse := by
    rw [List.reverse_append, List.reverse_cons, List.append_assoc, List.takeWhile_append_of_pos]
    · simp
    · intro c hc
      simpa using fun e : c = '.' => hb (e ▸ List.mem_reverse.mp hc)
  rw [extension, if_pos (by simp), ht, List.reverse_reverse]

/-- `atoi` of a decimal name. -/
theorem atoi_decimal_clamp (n : Nat) : atoi (decimal n) = clampLong n := by
  have hdig : (decimal n).takeWhile Char.isDigit = decimal n :=
    List.takeWhile_eq_self_iff.mpr fun c hc => isDigit_of_mem_decimal hc
  have hval : Nat.ofDigitChars 10 (decimal n) 0 = n := Nat.ofDigitChars_ten_toDigits
  cases e : decimal n with
  | nil => exact absurd e (decimal_ne_nil n)
  | cons c cs =>
    have hc : c.isDigit := isDigit_of_mem_decimal (n := n) (by rw [e]; exact List.mem_cons_self)
    have hdrop : (c :: cs).dropWhile (· ∈ [' ', '\t', '\n', '\x0b', '\x0c', '\r']) = c :: cs := by
      apply List.dropWhile_cons_of_neg
      intro hm
      simp only [List.mem_cons, List.not_mem_nil, or_false, decide_eq_true_eq] at hm
      rcases hm with rfl | rfl | rfl | rfl | rfl | rfl <;> simp at hc
    rw [e] at hdig hval
    unfold atoi
    rw [hdrop]
    split
    · rename_i h'; cases h'; simp at hc
    · rename_i h'; cases h'; simp at hc
    · rw [hdig, hval]

/-- `atoi` reads back every decimal name that fits an `int`. -/
theorem atoi_decimal {n : Nat} (h : n < 2 ^ 31) : atoi (decimal n) = n := by
  rw [atoi_decimal_clamp]
  simp only [clampLong]
  omega

theorem u32OfInt_natCast {n : Nat} (h : n < 2 ^ 32) : u32OfInt n = n := by
  simp only [u32OfInt]; omega

/-! ## The tree -/

/-- The directories and the files, each with its path from the root. -/
structure Tree where
  dirs : List Path
  files : List (Path × List Byte)
  deriving DecidableEq

namespace Tree

def read (d : Tree) (p : Path) : Option (List Byte) := d.files.lookup p

/-- `filesystem::exists`. -/
def has (d : Tree) (p : Path) : Bool := d.dirs.contains p || (d.read p).isSome

/-- Creates or replaces a file. -/
def write (d : Tree) (p : Path) (c : List Byte) : Tree :=
  { d with files := (p, c) :: d.files.filter (·.1 ≠ p) }

/-- `filesystem::remove` of a file. -/
def remove (d : Tree) (p : Path) : Tree := { d with files := d.files.filter (·.1 ≠ p) }

/-- `filesystem::rename` of a file. -/
def rename (d : Tree) (p q : Path) : Tree :=
  match d.read p with
  | some c => (d.remove p).write q c
  | none => d

/-- Creates one directory. -/
def mkdir (d : Tree) (p : Path) : Tree := if d.dirs.contains p then d else { d with dirs := d.dirs ++ [p] }

/-- The names of the directories in the directory `p`. -/
def subdirs (d : Tree) (p : Path) : List Name :=
  d.dirs.filterMap fun q => if q.dropLast = p then q.getLast? else none

/-- The files in the directory `p`, each with its name. -/
def filesIn (d : Tree) (p : Path) : List (Name × List Byte) :=
  d.files.filterMap fun f => if f.1.dropLast = p then f.1.getLast?.map (·, f.2) else none

theorem mem_files_of_read {d : Tree} {p : Path} {c : List Byte} (h : d.read p = some c) :
    (p, c) ∈ d.files := by
  obtain ⟨l₁, l₂, e, -⟩ := List.lookup_eq_some_iff.mp h
  rw [e]; simp

theorem read_of_mem {d : Tree} {p : Path} {c : List Byte} (h : (p, c) ∈ d.files) : ∃ c', d.read p = some c' := by
  cases hr : d.read p with
  | none => simpa using List.lookup_eq_none_iff.mp hr (p, c) h
  | some c' => exact ⟨c', rfl⟩

@[simp] theorem read_write (d : Tree) (p : Path) (c : List Byte) : (d.write p c).read p = some c := by
  simp [read, write]

theorem write_write (d : Tree) (p : Path) (c c' : List Byte) : (d.write p c).write p c' = d.write p c' := by
  simp [write]

theorem mem_files_write {d : Tree} {p : Path} {c : List Byte} {f : Path × List Byte}
    (h : f ∈ (d.write p c).files) : f = (p, c) ∨ f ∈ d.files := by
  simp only [write, List.mem_cons, List.mem_filter] at h
  exact h.imp_right And.left

theorem mem_files_remove {d : Tree} {p : Path} {f : Path × List Byte} (h : f ∈ (d.remove p).files) :
    f ∈ d.files := (List.mem_filter.mp h).1

theorem read_remove {d : Tree} {p q : Path} (h : p ≠ q) : (d.remove q).read p = d.read p := by
  obtain ⟨dirs, files⟩ := d
  simp only [read, remove]
  induction files with
  | nil => rfl
  | cons f files ih =>
    by_cases hf : f.1 = q
    · have hp : (p == f.1) = false := by rw [hf]; exact beq_eq_false_iff_ne.mpr h
      rw [List.filter_cons_of_neg (by simpa using hf), ih, List.lookup_cons, hp]
    · rw [List.filter_cons_of_pos (by simpa using hf), List.lookup_cons, List.lookup_cons, ih]

theorem read_write_of_ne {d : Tree} {p q : Path} (h : q ≠ p) (c : List Byte) : (d.write p c).read q = d.read q := by
  have hq : (q == p) = false := beq_eq_false_iff_ne.mpr h
  have hr : (d.write p c).read q = (d.remove p).read q := by
    simp only [read, write, remove, List.lookup_cons, hq]
  rw [hr, read_remove h]

theorem read_remove_self (d : Tree) (p : Path) : (d.remove p).read p = none := by
  rw [read, remove, List.lookup_eq_none_iff]
  intro f hf
  have hne : f.1 ≠ p := by simpa using (List.mem_filter.mp hf).2
  simpa using hne.symm

theorem read_rename {d : Tree} {p q : Path} {c : List Byte} (h : d.read p = some c) :
    (d.rename p q).read q = some c := by
  simp only [rename, h, read_write]

/-- A renamed file keeps its content; the others stay as they are. -/
theorem mem_files_rename {d : Tree} {p q : Path} {c : List Byte} (hc : d.read p = some c)
    {f : Path × List Byte} (h : f ∈ (d.rename p q).files) : f = (q, c) ∨ f ∈ d.files := by
  simp only [rename, hc] at h
  exact (mem_files_write h).imp_right mem_files_remove

@[simp] theorem files_mkdir (d : Tree) (p : Path) : (d.mkdir p).files = d.files := by
  simp only [mkdir]; split <;> rfl

@[simp] theorem dirs_rename (d : Tree) (p q : Path) : (d.rename p q).dirs = d.dirs := by
  simp only [rename]; split <;> rfl

theorem mem_dirs_mkdir {d : Tree} {p q : Path} : q ∈ (d.mkdir p).dirs ↔ q = p ∨ q ∈ d.dirs := by
  by_cases h : d.dirs.contains p
  · simp only [mkdir, h, ite_true]
    exact ⟨.inr, fun e => e.elim (fun e => e ▸ List.contains_iff_mem.mp h) id⟩
  · simp only [mkdir, h, Bool.false_eq_true, ite_false, List.mem_append, List.mem_singleton]
    exact or_comm

theorem mem_subdirs {d : Tree} {p : Path} {n : Name} : n ∈ d.subdirs p ↔ p ++ [n] ∈ d.dirs := by
  simp only [subdirs, List.mem_filterMap]
  constructor
  · rintro ⟨q, hq, e⟩
    split at e
    · rename_i hp
      rw [← hp, List.dropLast_append_getLast? n e]
      exact hq
    · cases e
  · exact fun h => ⟨_, h, by simp⟩

theorem mem_filesIn {d : Tree} {p : Path} {n : Name} {c : List Byte} :
    (n, c) ∈ d.filesIn p ↔ (p ++ [n], c) ∈ d.files := by
  simp only [filesIn, List.mem_filterMap]
  constructor
  · rintro ⟨f, hf, e⟩
    split at e
    · rename_i hp
      obtain ⟨m, hm, e⟩ := Option.map_eq_some_iff.mp e
      cases e
      rw [← hp, List.dropLast_append_getLast? _ hm]
      exact hf
    · cases e
  · exact fun h => ⟨_, h, by simp⟩

end Tree

end XH
