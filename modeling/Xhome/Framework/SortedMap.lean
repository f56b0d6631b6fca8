import Mathlib.Data.List.Basic

/-!
# Ordered maps

`std::map` with numeric keys as a list in ascending order; as in C++, an
insertion leaves an entry that has the key already.
-/

namespace XH

variable {α : Type}

/-- `map.insert(std::make_pair(k, v))`. -/
def mapInsert (k : Nat) (v : α) : List (Nat × α) → List (Nat × α)
  | [] => [(k, v)]
  | e :: m => if k < e.1 then (k, v) :: e :: m else if k = e.1 then e :: m else e :: mapInsert k v m

/-- The map with the entries of `l` inserted one after the other. -/
def mapOfList (l : List (Nat × α)) : List (Nat × α) := l.foldl (fun m e => mapInsert e.1 e.2 m) []

/-- The keys are in strictly ascending order. -/
def Ascending (m : List (Nat × α)) : Prop := m.Pairwise fun a b => a.1 < b.1

theorem mem_mapInsert {k : Nat} {v : α} :
    ∀ {m : List (Nat × α)} {e : Nat × α}, e ∈ mapInsert k v m → e = (k, v) ∨ e ∈ m
  | [], e, h => .inl (by simpa [mapInsert] using h)
  | a :: m, e, h => by
    simp only [mapInsert] at h
    split at h
    · exact (List.mem_cons.mp h)
    · split at h
      · exact .inr h
      · rcases List.mem_cons.mp h with rfl | h
        · exact .inr List.mem_cons_self
        · exact (mem_mapInsert h).imp_right (List.mem_cons_of_mem _)

theorem mem_mapInsert_of_mem {k : Nat} {v : α} :
    ∀ {m : List (Nat × α)} {e : Nat × α}, e ∈ m → e ∈ mapInsert k v m
  | a :: m, e, h => by
    simp only [mapInsert]
    split
    · exact List.mem_cons_of_mem _ h
    · split
      · exact h
      · rcases List.mem_cons.mp h with rfl | h
        · exact List.mem_cons_self
        · exact List.mem_cons_of_mem _ (mem_mapInsert_of_mem h)

/-- The key is in the map afterwards. -/
theorem key_mem_mapInsert (k : Nat) (v : α) : ∀ m : List (Nat × α), ∃ e ∈ mapInsert k v m, e.1 = k
  | [] => ⟨(k, v), by simp [mapInsert], rfl⟩
  | a :: m => by
    simp only [mapInsert]
    split
    · exact ⟨_, List.mem_cons_self, rfl⟩
    · split
      · rename_i h; exact ⟨a, List.mem_cons_self, h.symm⟩
      · obtain ⟨e, he, hk⟩ := key_mem_mapInsert k v m
        exact ⟨e, List.mem_cons_of_mem _ he, hk⟩

theorem ascending_mapInsert {k : Nat} {v : α} :
    ∀ {m : List (Nat × α)}, Ascending m → Ascending (mapInsert k v m)
  | [], _ => by simp [mapInsert, Ascending]
  | a :: m, h => by
    have ha := List.pairwise_cons.mp h
    simp only [mapInsert]
    split
    · rename_i hk
      exact List.pairwise_cons.mpr ⟨fun e he => (List.mem_cons.mp he).elim (fun e => e ▸ hk)
        fun he => Nat.lt_trans hk (ha.1 e he), h⟩
    · split
      · exact h
      · rename_i h₁ h₂
        refine List.pairwise_cons.mpr ⟨fun e he => ?_, ascending_mapInsert ha.2⟩
        rcases mem_mapInsert he with rfl | he
        · show a.1 < k; omega
        · exact ha.1 e he

theorem foldl_mapInsert (l : List (Nat × α)) :
    ∀ m : List (Nat × α), Ascending m →
      Ascending (l.foldl (fun m e => mapInsert e.1 e.2 m) m) ∧
      (∀ e ∈ l.foldl (fun m e => mapInsert e.1 e.2 m) m, e ∈ m ∨ e ∈ l) ∧
      (∀ e, e ∈ m ∨ e ∈ l → ∃ e' ∈ l.foldl (fun m e => mapInsert e.1 e.2 m) m, e'.1 = e.1) := by
  induction l with
  | nil => exact fun m h => ⟨h, fun e he => .inl he, fun e he => ⟨e, by simpa using he, rfl⟩⟩
  | cons a l ih =>
    intro m h
    obtain ⟨hs, hm, hk⟩ := ih (mapInsert a.1 a.2 m) (ascending_mapInsert h)
    refine ⟨hs, fun e he => ?_, fun e he => ?_⟩
    · rcases hm e he with h | h
      · exact (mem_mapInsert h).elim (fun e => .inr (e ▸ List.mem_cons_self)) .inl
      · exact .inr (List.mem_cons_of_mem _ h)
    · rcases he with he | he
      · exact hk e (.inl (mem_mapInsert_of_mem he))
      · rcases List.mem_cons.mp he with rfl | he
        · obtain ⟨e', he', hk'⟩ := key_mem_mapInsert e.1 e.2 m
          obtain ⟨e'', h₁, h₂⟩ := hk e' (.inl he')
          exact ⟨e'', h₁, h₂.trans hk'⟩
        · exact hk e (.inr he)

theorem ascending_mapOfList (l : List (Nat × α)) : Ascending (mapOfList l) :=
  (foldl_mapInsert l [] List.Pairwise.nil).1

theorem mem_of_mem_mapOfList {l : List (Nat × α)} {e : Nat × α} (h : e ∈ mapOfList l) : e ∈ l :=
  ((foldl_mapInsert l [] List.Pairwise.nil).2.1 e h).resolve_left (by simp)

theorem key_mem_mapOfList {l : List (Nat × α)} {e : Nat × α} (h : e ∈ l) :
    ∃ e' ∈ mapOfList l, e'.1 = e.1 :=
  (foldl_mapInsert l [] List.Pairwise.nil).2.2 e (.inr h)

/-- The last entry has the greatest key. -/
theorem Ascending.le_getLast {m : List (Nat × α)} (h : Ascending m) {a : Nat × α}
    (ha : m.getLast? = some a) {e : Nat × α} (he : e ∈ m) : e.1 ≤ a.1 := by
  obtain ⟨ys, rfl⟩ := List.getLast?_eq_some_iff.mp ha
  rcases List.mem_append.mp he with he | he
  · exact Nat.le_of_lt ((List.pairwise_append.mp h).2.2 e he a (by simp))
  · exact Nat.le_of_eq (congrArg Prod.fst (List.mem_singleton.mp he))

end XH
