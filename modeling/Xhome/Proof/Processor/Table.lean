import Xhome.Impl.Processor.Supervisor
import Mathlib.Data.List.Nodup
import Mathlib.Data.List.Perm.Basic

/-!
# The process table

`workers` and `hProcesses` together are a list of rows, one for each running
worker in the order of the slots (`Table`): a started worker is a new last
row, a worker that leaves is a row taken out, and a restart changes the
process of a row.
-/

namespace XH.Proof.Processor

open XH.Impl.Processor

/-- A running worker. -/
structure Row where
  cmd : Text
  guid : Text
  pid : Pid

/-- The entries of `workers` for rows whose first slot is `i`. -/
def number : Nat → List Row → List Worker
  | _, [] => []
  | i, r :: rows => ⟨r.cmd, i, r.guid⟩ :: number (i + 1) rows

theorem number_append (i : Nat) (a b : List Row) : number i (a ++ b) = number i a ++ number (i + a.length) b := by
  induction a generalizing i with
  | nil => rfl
  | cons r a ih =>
    rw [List.cons_append, number, number, ih, List.length_cons, List.cons_append,
      show i + 1 + a.length = i + (a.length + 1) by omega]

theorem length_number (i : Nat) (rows : List Row) : (number i rows).length = rows.length := by
  induction rows generalizing i with
  | nil => rfl
  | cons r rows ih => simp [number, ih]

theorem cmd_number (i : Nat) (rows : List Row) : (number i rows).map (·.cmd) = rows.map (·.cmd) := by
  induction rows generalizing i with
  | nil => rfl
  | cons r rows ih => simp [number, ih]

theorem guid_number (i : Nat) (rows : List Row) : (number i rows).map (·.guid) = rows.map (·.guid) := by
  induction rows generalizing i with
  | nil => rfl
  | cons r rows ih => simp [number, ih]

theorem slot_number (i : Nat) (rows : List Row) : (number i rows).map (·.slot) = List.range' i rows.length := by
  induction rows generalizing i with
  | nil => rfl
  | cons r rows ih => simp [number, ih, List.range'_succ]

/-- An entry is the row at its slot. -/
theorem mem_number {i : Nat} {rows : List Row} {w : Worker} :
    w ∈ number i rows ↔ ∃ a r b, rows = a ++ r :: b ∧ w = ⟨r.cmd, i + a.length, r.guid⟩ := by
  induction rows generalizing i with
  | nil => simp [number]
  | cons r rows ih =>
    rw [number, List.mem_cons, ih]
    constructor
    · rintro (rfl | ⟨a, r', b, rfl, rfl⟩)
      · exact ⟨[], r, rows, rfl, rfl⟩
      · exact ⟨r :: a, r', b, rfl, by rw [List.length_cons]; congr 1; omega⟩
    · rintro ⟨a, r', b, e, rfl⟩
      rcases a with _ | ⟨q, a⟩
      · obtain ⟨rfl, rfl⟩ := List.cons.inj e
        exact .inl rfl
      · obtain ⟨rfl, rfl⟩ := List.cons.inj e
        exact .inr ⟨a, r', b, rfl, by rw [List.length_cons]; congr 1; omega⟩

/-- The table of a list of rows. -/
structure Table (rows : List Row) (workers : List Worker) (h : List Pid) : Prop where
  workers : workers.Perm (number 0 rows)
  processes : h = rows.map (·.pid) ++ List.replicate (csMaxProcessCount - rows.length) 0
  fits : rows.length < csMaxProcessCount
  keys : (rows.map (·.cmd)).Nodup
  alive : ∀ r ∈ rows, r.pid ≠ 0

theorem table_nil : Table [] [] (List.replicate csMaxProcessCount 0) where
  workers := .nil
  processes := rfl
  fits := by decide
  keys := List.nodup_nil
  alive := fun _ h => by cases h

namespace Table

variable {rows a b : List Row} {r : Row} {ws : List Worker} {h : List Pid}

theorem length_workers (t : Table rows ws h) : ws.length = rows.length := by
  rw [t.workers.length_eq, length_number]

theorem length_processes (t : Table rows ws h) : h.length = csMaxProcessCount := by
  have := t.fits
  rw [t.processes, List.length_append, List.length_map, List.length_replicate]
  omega

theorem perm_keys (t : Table rows ws h) : (ws.map (·.cmd)).Perm (rows.map (·.cmd)) := by
  rw [← cmd_number 0 rows]
  exact t.workers.map _

theorem mem_keys (t : Table rows ws h) {c : Text} : (∃ w ∈ ws, w.cmd = c) ↔ c ∈ rows.map (·.cmd) := by
  rw [← t.perm_keys.mem_iff, List.mem_map]

/-- An entry of `workers` is a row at its slot. -/
theorem mem_workers (t : Table rows ws h) {w : Worker} :
    w ∈ ws ↔ ∃ a r b, rows = a ++ r :: b ∧ w = ⟨r.cmd, a.length, r.guid⟩ := by
  rw [t.workers.mem_iff, mem_number]
  simp only [Nat.zero_add]

/-- The process in the slot of a row. -/
theorem get_row (t : Table (a ++ r :: b) ws h) : h[a.length]? = some r.pid := by
  rw [t.processes]
  simp

theorem get_lt (t : Table rows ws h) {i : Nat} (hi : i < rows.length) : ∃ p, h[i]? = some p ∧ p ≠ 0 := by
  rw [t.processes, List.getElem?_append_left (by simpa using hi), List.getElem?_map,
    List.getElem?_eq_getElem hi]
  exact ⟨_, rfl, t.alive _ (List.getElem_mem hi)⟩

theorem get_ge (t : Table rows ws h) {i : Nat} (hn : rows.length ≤ i) (hi : i < csMaxProcessCount) :
    h[i]? = some 0 := by
  rw [t.processes, List.getElem?_append_right (by simpa using hn), List.getElem?_replicate, if_pos]
  simp only [List.length_map]
  omega

/-! ## A started worker -/

/-- The first free slot is the one behind the rows. -/
theorem freeSlot_eq (t : Table rows ws h) (tries i : Nat) (hi : i ≤ rows.length)
    (ht : i + tries = csMaxProcessCount - 1) :
    freeSlot h tries i = some (if rows.length < csMaxProcessCount - 1 then some rows.length else none) := by
  have hf := t.fits
  induction tries generalizing i with
  | zero => rw [freeSlot, if_neg (by omega)]
  | succ tries ih =>
    rcases Nat.lt_or_ge i rows.length with hlt | hge
    · obtain ⟨p, hp, h0⟩ := t.get_lt hlt
      simp only [freeSlot, hp, Option.bind_eq_bind, Option.bind_some, h0, if_false]
      exact ih (i + 1) hlt (by omega)
    · have e : i = rows.length := by omega
      subst e
      simp only [freeSlot, t.get_ge (Nat.le_refl _) hf, Option.bind_eq_bind, Option.bind_some, if_true]
      rw [if_pos (by omega)]

theorem assign_perm {w : Worker} : ∀ {ws : List Worker}, (∀ v ∈ ws, v.cmd ≠ w.cmd) → (assign w ws).Perm (w :: ws)
  | [], _ => .refl _
  | v :: ws, hw => by
    rw [assign, if_neg (hw v List.mem_cons_self)]
    split
    · exact .refl _
    · exact ((assign_perm fun u hu => hw u (List.mem_cons_of_mem _ hu)).cons v).trans (.swap w v ws)

/-- A worker started in the first free slot is a new last row. -/
theorem start (t : Table rows ws h) (hr : r.pid ≠ 0) (hc : r.cmd ∉ rows.map (·.cmd))
    (hl : rows.length < csMaxProcessCount - 1) :
    Table (rows ++ [r]) (assign ⟨r.cmd, rows.length, r.guid⟩ ws) (h.set rows.length r.pid) where
  workers := by
    have hw : ∀ v ∈ ws, v.cmd ≠ r.cmd := fun v hv e => hc (t.mem_keys.mp ⟨v, hv, e⟩)
    apply (assign_perm hw).trans
    rw [number_append, Nat.zero_add]
    exact (t.workers.cons _).trans (List.perm_append_singleton _ _).symm
  processes := by
    have hz : csMaxProcessCount - rows.length = csMaxProcessCount - (rows ++ [r]).length + 1 := by
      rw [List.length_append, List.length_singleton]; omega
    rw [t.processes, hz, List.replicate_succ, List.map_append, List.append_assoc,
      List.set_append_right _ _ (by simp)]
    simp
  fits := by rw [List.length_append, List.length_singleton]; omega
  keys := by
    rw [List.map_append, List.map_singleton, List.nodup_append]
    exact ⟨t.keys, List.nodup_singleton _, fun c hc' d hd e => hc (List.mem_singleton.mp hd ▸ e ▸ hc')⟩
  alive := fun q hq => (List.mem_append.mp hq).elim (t.alive q) fun hq => List.mem_singleton.mp hq ▸ hr

/-! ## A worker that leaves -/

theorem renumber_number_below {x : Nat} : ∀ {i : Nat} {rows : List Row}, i + rows.length ≤ x + 1 →
    renumber x (number i rows) = number i rows
  | _, [], _ => rfl
  | i, r :: rows, hx => by
    rw [List.length_cons] at hx
    rw [number, renumber, List.map_cons, if_neg (by show ¬x < i; omega)]
    exact congrArg _ (renumber_number_below (by omega))

theorem renumber_number_above {x : Nat} : ∀ {i : Nat} {rows : List Row}, x ≤ i →
    renumber x (number (i + 1) rows) = number i rows
  | _, [], _ => rfl
  | i, r :: rows, hx => by
    rw [number, renumber, List.map_cons, if_pos (by show x < i + 1; omega)]
    exact congrArg _ (renumber_number_above (by omega))

theorem filter_number {c : Text} : ∀ {i : Nat} {rows : List Row}, c ∉ rows.map (·.cmd) →
    (number i rows).filter (·.cmd ≠ c) = number i rows
  | _, [], _ => rfl
  | i, r :: rows, hc => by
    rw [List.map_cons, List.mem_cons, not_or] at hc
    rw [number, List.filter_cons_of_pos (by simpa using Ne.symm hc.1), filter_number hc.2]

/-- The rows after a worker left, renumbered. -/
theorem renumber_rows (t : Table (a ++ r :: b) ws h) :
    (renumber a.length (number 0 (a ++ r :: b))).filter (·.cmd ≠ r.cmd) = number 0 (a ++ b) := by
  have hn := t.keys
  rw [List.map_append, List.map_cons, List.nodup_append, List.nodup_cons] at hn
  have ha : r.cmd ∉ a.map (·.cmd) := fun hm => hn.2.2 _ hm _ List.mem_cons_self rfl
  rw [number_append, number, renumber, List.map_append, List.map_cons, if_neg (by simp)]
  show (renumber a.length (number 0 a) ++ _ :: renumber a.length (number (0 + a.length + 1) b)).filter _ = _
  rw [renumber_number_below (by omega), renumber_number_above (by omega), List.filter_append,
    List.filter_cons_of_neg (by simp), filter_number ha, filter_number hn.2.1.1, number_append]

/-- The map is renumbered only if the worker is not the last one; the last one needs no renumbering. -/
theorem renumber_workers (t : Table (a ++ r :: b) ws h) :
    (if a.length + 1 < ws.length then renumber a.length ws else ws) = renumber a.length ws := by
  split
  · rfl
  · rename_i hl
    rw [t.length_workers] at hl
    have hu : ∀ w ∈ ws, (if a.length < w.slot then { w with slot := w.slot - 1 } else w) = w := by
      intro w hw
      have hs : w.slot ∈ (number 0 (a ++ r :: b)).map (·.slot) :=
        List.mem_map_of_mem (t.workers.mem_iff.mp hw)
      rw [slot_number, List.mem_range'_1] at hs
      exact if_neg (by omega)
    rw [renumber, List.map_congr_left hu, List.map_id']

theorem store_eq {h : List Pid} {i : Nat} (v : Pid) (hi : i < h.length) : store h i v = some (h.set i v) := if_pos hi

/-- The loop takes the entry at `x` out of a run of processes that ends with a free slot. -/
theorem shiftDown_eq (tries : Nat) (as : List Pid) (p : Pid) (bs zs : List Pid) (ht : bs.length < tries)
    (hb : ∀ q ∈ bs, q ≠ 0) (hl : as.length + bs.length + 1 < csMaxProcessCount) :
    shiftDown tries (as ++ p :: (bs ++ 0 :: zs)) as.length =
      some (as ++ (bs ++ 0 :: 0 :: zs), as.length + bs.length + 1) := by
  induction bs generalizing tries as p with
  | nil =>
    obtain ⟨tries, rfl⟩ : ∃ n, tries = n + 1 := ⟨tries - 1, by simp at ht; omega⟩
    simp [shiftDown, store]
  | cons q bs ih =>
    rw [List.length_cons] at ht hl
    obtain ⟨tries, rfl⟩ : ∃ n, tries = n + 1 := ⟨tries - 1, by omega⟩
    have h₁ : (as ++ p :: (q :: bs ++ 0 :: zs))[as.length + 1]? = some q := by simp
    have h₂ : store (as ++ p :: (q :: bs ++ 0 :: zs)) as.length q = some (as ++ q :: (q :: bs ++ 0 :: zs)) := by
      rw [store_eq _ (by simp)]; simp
    have h₃ : (as ++ q :: (q :: bs ++ 0 :: zs))[as.length + 1]? = some q := by simp
    simp only [shiftDown, h₁, h₂, h₃, Option.bind_eq_bind, Option.bind_some]
    rw [if_pos ⟨hb q List.mem_cons_self, by omega⟩]
    have := ih tries (as ++ [q]) q (by omega) (fun x hx => hb x (List.mem_cons_of_mem _ hx))
      (by rw [List.length_append, List.length_singleton]; omega)
    rw [List.length_append, List.length_singleton] at this
    simp only [List.append_assoc, List.nil_append, List.cons_append] at this ⊢
    rw [this, List.length_cons]
    congr 2
    omega

/-- The array without the process of a row; the slot at its end stays free. -/
theorem shiftDown_rows (t : Table (a ++ r :: b) ws h) : ∃ h' y,
    shiftDown csMaxProcessCount h a.length = some (h', y) ∧
    freeLast h' y = some ((a ++ b).map (·.pid) ++ List.replicate (csMaxProcessCount - (a ++ b).length) 0) := by
  have hf := t.fits
  rw [List.length_append, List.length_cons] at hf
  obtain ⟨m, hm⟩ : ∃ m, csMaxProcessCount - (a ++ r :: b).length = m + 1 :=
    ⟨csMaxProcessCount - (a ++ r :: b).length - 1, by rw [List.length_append, List.length_cons]; omega⟩
  have hm' : csMaxProcessCount - (a ++ b).length = m + 2 := by
    rw [List.length_append, List.length_cons] at hm
    rw [List.length_append]
    omega
  have he : h = a.map (·.pid) ++ r.pid :: (b.map (·.pid) ++ 0 :: List.replicate m 0) := by
    rw [t.processes, hm, List.replicate_succ]; simp
  have hs := shiftDown_eq csMaxProcessCount (a.map (·.pid)) r.pid (b.map (·.pid)) (List.replicate m 0)
    (by rw [List.length_map]; omega)
    (fun q hq => by
      obtain ⟨r', hr', rfl⟩ := List.mem_map.mp hq
      exact t.alive r' (List.mem_append_right _ (List.mem_cons_of_mem _ hr')))
    (by rw [List.length_map, List.length_map]; omega)
  rw [List.length_map, ← he] at hs
  refine ⟨_, _, hs, ?_⟩
  rw [hm', List.map_append, List.append_assoc, List.replicate_succ, List.replicate_succ]
  rw [List.length_append, List.length_cons] at hm
  -- the last slot is set to zero where it is zero already
  rw [freeLast]
  split
  · rename_i hy
    rw [List.length_map] at hy
    rw [store_eq _ (by simp; omega), List.set_append_right _ _ (by simp; omega),
      List.set_append_right _ _ (by simp; omega)]
    have hm0 : m = 0 := by omega
    subst hm0
    have hi : csMaxProcessCount - 1 - (a.map (·.pid)).length - (b.map (·.pid)).length = 1 := by
      rw [List.length_map, List.length_map]; omega
    rw [hi]
    rfl
  · rfl

theorem removed (t : Table (a ++ r :: b) ws h) :
    Table (a ++ b) ((renumber a.length ws).filter (·.cmd ≠ r.cmd))
      ((a ++ b).map (·.pid) ++ List.replicate (csMaxProcessCount - (a ++ b).length) 0) where
  workers := by
    rw [← t.renumber_rows]
    exact (t.workers.map _).filter _
  processes := rfl
  fits := by
    have := t.fits
    rw [List.length_append, List.length_cons] at this
    rw [List.length_append]
    omega
  keys := t.keys.sublist (((List.Sublist.refl a).append (List.sublist_cons_self r b)).map _)
  alive := fun q hq => t.alive q (((List.Sublist.refl a).append (List.sublist_cons_self r b)).subset hq)

end Table

/-- `dropWorker` takes the row out. -/
theorem dropWorker_eq {s : Supervisor} {a b : List Row} {r : Row} (t : Table (a ++ r :: b) s.workers s.hProcesses)
    (i : Nat) (g : Text) : ∃ ws h, Table (a ++ b) ws h ∧
      dropWorker s ⟨r.cmd, i, g⟩ a.length = some { s with workers := ws, hProcesses := h } := by
  obtain ⟨h', y, h₁, h₂⟩ := t.shiftDown_rows
  refine ⟨_, _, t.removed, ?_⟩
  simp only [dropWorker, t.renumber_workers, h₁, h₂, Option.bind_eq_bind, Option.bind_some]

/-! ## A restart -/

theorem Table.restart {a b : List Row} {r : Row} {ws : List Worker} {h : List Pid} {p : Pid}
    (t : Table (a ++ r :: b) ws h) (hp : p ≠ 0) :
    store h a.length p = some (h.set a.length p) ∧ Table (a ++ { r with pid := p } :: b) ws (h.set a.length p) := by
  have hf := t.fits
  refine ⟨Table.store_eq _ (by
    rw [t.length_processes]; rw [List.length_append, List.length_cons] at hf; omega), ?_, ?_, ?_, ?_, ?_⟩
  · rw [number_append]
    have := t.workers
    rw [number_append] at this
    exact this
  · rw [t.processes]
    simp
  · rw [List.length_append, List.length_cons] at hf ⊢
    exact hf
  · have := t.keys
    rw [List.map_append, List.map_cons] at this ⊢
    exact this
  · intro q hq
    rcases List.mem_append.mp hq with hq | hq
    · exact t.alive q (List.mem_append_left _ hq)
    · rcases List.mem_cons.mp hq with rfl | hq
      · exact hp
      · exact t.alive q (List.mem_append_right _ (List.mem_cons_of_mem _ hq))

end XH.Proof.Processor
