import Mathlib.Data.List.Chain
import Mathlib.Data.List.Nodup

/-!
# Arithmetic progressions

Lists of numbers in which each is `d` more than the one before. The rules are
for a list that grows at its end by the next number, which is kept behind it.
-/

namespace XH

/-- Each number is `d` more than the one before. -/
def Progression (d : Nat) (l : List Nat) : Prop := l.IsChain fun a b => b = a + d

namespace Progression

variable {d : Nat} {l : List Nat}

theorem singleton (a : Nat) : Progression d [a] := List.isChain_singleton a

theorem left {a : Nat} (h : Progression d (l ++ [a])) : Progression d l := List.IsChain.left_of_append h

/-- The next number goes into the list. -/
theorem concat {a : Nat} (h : Progression d (l ++ [a])) : Progression d (l ++ [a] ++ [a + d]) := by
  refine List.isChain_append.mpr ⟨h, List.isChain_singleton _, fun x hx y hy => ?_⟩
  rw [List.getLast?_concat, Option.mem_some_iff] at hx
  rw [List.head?_singleton, Option.mem_some_iff] at hy
  rw [← hx, ← hy]

theorem pairwise (hd : 0 < d) (h : Progression d l) : l.Pairwise (· < ·) :=
  (List.IsChain.imp (fun a b (e : b = a + d) => show a < b by omega) h).pairwise

/-- The next number is behind all of the list. -/
theorem lt_next (hd : 0 < d) {a x : Nat} (h : Progression d (l ++ [a])) (hx : x ∈ l) : x < a :=
  (List.pairwise_append.mp (pairwise hd h)).2.2 x hx a (List.mem_singleton_self a)

/-- The first number is the least. -/
theorem head_le (hd : 0 < d) {a x : Nat} (h : Progression d l) (ha : l.head? = some a) (hx : x ∈ l) : a ≤ x := by
  obtain ⟨l, rfl⟩ := List.head?_eq_some_iff.mp ha
  rcases List.mem_cons.mp hx with rfl | hx
  · exact le_rfl
  · exact Nat.le_of_lt ((List.pairwise_cons.mp (pairwise hd h)).1 x hx)

/-- No number is left out. -/
theorem mem (hd : 0 < d) {c x : Nat} :
    ∀ {a : Nat} {l : List Nat}, Progression d (a :: l ++ [c]) → a ≤ x → d ∣ x - a → x < c → x ∈ a :: l
  | a, [], h, hax, hdvd, hxc => by
    have hc : c = a + d := (List.isChain_cons_cons.mp h).1
    have h₀ : x - a = 0 := Nat.eq_zero_of_dvd_of_lt hdvd (by omega)
    rw [show x = a by omega]
    exact List.mem_cons_self
  | a, b :: l, h, hax, hdvd, hxc => by
    obtain ⟨hb, h'⟩ := List.isChain_cons_cons.mp h
    by_cases hx : x = a
    · rw [hx]; exact List.mem_cons_self
    · have hle : d ≤ x - a := Nat.le_of_dvd (by omega) hdvd
      have hdvd' : d ∣ x - b := by
        rw [hb, Nat.sub_add_eq]
        exact Nat.dvd_sub hdvd (Nat.dvd_refl d)
      exact List.mem_cons_of_mem _ (mem hd (a := b) h' (by omega) hdvd' hxc)

/-- Every number from the first on that is not behind the list is in it. -/
theorem mem_of_lt (hd : 0 < d) {a c x : Nat} (h : Progression d (l ++ [c])) (ha : (l ++ [c]).head? = some a) (hax : a ≤ x)
    (hdvd : d ∣ x - a) (hxc : x < c) : x ∈ l := by
  cases l with
  | nil =>
    cases ha
    exact absurd hxc (Nat.not_lt.mpr hax)
  | cons b l =>
    cases ha
    exact mem hd h hax hdvd hxc

theorem nodup (hd : 0 < d) (h : Progression d l) : l.Nodup := (pairwise hd h).imp Nat.ne_of_lt

end Progression

end XH
