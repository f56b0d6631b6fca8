import Mathlib.Order.Lattice
import Mathlib.Data.List.Basic

/-!
# Grouping by a key

Elements with keys that do not fall are put into groups, a new one begun where
the key grows. `Grouped` is what the groups closed so far and the one at hand,
with its key, satisfy; in the end two elements lie in one group if and only if
their keys are equal (`Grouped.index`).
-/

namespace XH

variable {α κ : Type} [LinearOrder κ]

structure Grouped (key : α → κ) (closed : List (List α)) (current : List α) (k : κ) : Prop where
  here : ∀ x ∈ current, key x = k
  before : ∀ g ∈ closed, ∀ x ∈ g, key x < k
  same : ∀ g ∈ closed, ∀ x ∈ g, ∀ y ∈ g, key x = key y
  rising : closed.Pairwise fun g g' => ∀ x ∈ g, ∀ y ∈ g', key x < key y

namespace Grouped

variable {key : α → κ} {closed : List (List α)} {current : List α} {k k' : κ}

/-- Without an element any key will do. -/
theorem of_nil (h : closed.flatten = []) (k : κ) : Grouped key closed [] k := by
  have hn : ∀ g ∈ closed, g = [] := List.flatten_eq_nil_iff.mp h
  refine ⟨fun x hx => (List.not_mem_nil hx).elim, fun g hg x hx => ?_, fun g hg x hx => ?_, ?_⟩
  · rw [hn g hg] at hx
    cases hx
  · rw [hn g hg] at hx
    cases hx
  · apply List.pairwise_of_forall_mem_list
    intro g hg g' _ x hx
    rw [hn g hg] at hx
    cases hx

/-- An element with the key of the group at hand. -/
theorem push (h : Grouped key closed current k) {x : α} (hx : key x = k) : Grouped key closed (current ++ [x]) k where
  here y hy := by
    rcases List.mem_append.mp hy with hy | hy
    · exact h.here y hy
    · rw [List.mem_singleton.mp hy, hx]
  before := h.before
  same := h.same
  rising := h.rising

/-- The keys rise up to the group at hand. -/
theorem rising_current (h : Grouped key closed current k) :
    (closed ++ [current]).Pairwise fun g g' => ∀ x ∈ g, ∀ y ∈ g', key x < key y := by
  refine List.pairwise_append.mpr ⟨h.rising, List.pairwise_singleton _ _, fun g hg g' hg' x hx y hy => ?_⟩
  rw [List.mem_singleton.mp hg'] at hy
  rw [h.here y hy]
  exact h.before g hg x hx

/-- The group at hand is closed for a larger key. -/
theorem close (h : Grouped key closed current k) (hk : k < k') : Grouped key (closed ++ [current]) [] k' where
  here x hx := (List.not_mem_nil hx).elim
  before g hg x hx := by
    rcases List.mem_append.mp hg with hg | hg
    · exact (h.before g hg x hx).trans hk
    · rw [List.mem_singleton.mp hg] at hx
      rw [h.here x hx]
      exact hk
  same g hg x hx y hy := by
    rcases List.mem_append.mp hg with hg | hg
    · exact h.same g hg x hx y hy
    · rw [List.mem_singleton.mp hg] at hx hy
      rw [h.here x hx, h.here y hy]
  rising := h.rising_current

/-- Elements of two groups: the keys rise with the groups, and are equal in one
group only. -/
theorem index (h : Grouped key closed current k) {i j : Nat} {g g' : List α} {x y : α}
    (hi : (closed ++ [current])[i]? = some g) (hj : (closed ++ [current])[j]? = some g') (hx : x ∈ g) (hy : y ∈ g') :
    (i < j → key x < key y) ∧ (key x = key y ↔ i = j) := by
  have hlt : ∀ {i j : Nat} {g g' : List α} {x y : α}, (closed ++ [current])[i]? = some g →
      (closed ++ [current])[j]? = some g' → x ∈ g → y ∈ g' → i < j → key x < key y := fun hi hj hx hy hij => by
    obtain ⟨_, hi⟩ := List.getElem?_eq_some_iff.mp hi
    obtain ⟨_, hj⟩ := List.getElem?_eq_some_iff.mp hj
    refine List.pairwise_iff_getElem.mp h.rising_current _ _ ‹_› ‹_› hij _ ?_ _ ?_
    · rw [hi]; exact hx
    · rw [hj]; exact hy
  refine ⟨hlt hi hj hx hy, fun he => ?_, fun he => ?_⟩
  · rcases Nat.lt_trichotomy i j with hij | hij | hij
    · exact absurd he (hlt hi hj hx hy hij).ne
    · exact hij
    · exact absurd he (hlt hj hi hy hx hij).ne'
  · subst he
    obtain rfl : g = g' := Option.some.inj (hi.symm.trans hj)
    rcases List.mem_append.mp (List.mem_of_getElem? hi) with hg | hg
    · exact h.same g hg x hx y hy
    · rw [List.mem_singleton.mp hg] at hx hy
      rw [h.here x hx, h.here y hy]

end Grouped

end XH
