import Xhome.Proof.Processor.Moves

/-!
# The process table over whole runs

The kernel gives a child a number that none of the children not yet waited
for has (`Kernel`). In every run the rows of the table then stand for the
processes last started for their command lines (`Traced`), and
`processCount` counts them (`Counted`); `process_table_consistent` says what
this means for `workers` and `hProcesses`.
-/

namespace XH.Proof.Processor

open XH.Impl.Processor

/-- The process last started for a command line. -/
def lastStarted (cmd : Text) : List Call → Option Pid
  | [] => none
  | .start c p :: calls => if c = cmd then some p else lastStarted cmd calls
  | .kill _ :: calls => lastStarted cmd calls

/-- The children that are not waited for before the step forks. -/
def unwaited (s : Supervisor) (a : Answer) : List (Pid × Text) :=
  match s.phase, a.stopped with
  | .waiting _, some pid => s.children.filter (·.1 ≠ pid)
  | _, _ => s.children

/-- `fork` gives the child a positive number that no child has. -/
def Kernel (s : Supervisor) (a : Answer) : Prop := ∀ p ∈ a.fork, p ≠ 0 ∧ p ∉ (unwaited s a).map (·.1)

instance (s : Supervisor) (a : Answer) : Decidable (Kernel s a) := Option.decidableForallMem _

theorem unwaited_of_reading {s : Supervisor} {lines : List Text} (hp : s.phase = .reading lines) (a : Answer) :
    unwaited s a = s.children := by
  simp only [unwaited, hp]

theorem unwaited_of_stopped {s : Supervisor} {ticks : Nat} {a : Answer} {pid : Pid} (hp : s.phase = .waiting ticks)
    (ha : a.stopped = some pid) : unwaited s a = s.children.filter (·.1 ≠ pid) := by
  simp only [unwaited, hp, ha]

/-! ## Processes and children -/

theorem others_subset (as : List Row) (r : Row) (bs : List Row) : as ++ bs ⊆ as ++ r :: bs :=
  ((List.Sublist.refl as).append (List.sublist_cons_self r bs)).subset

theorem cmd_notMem_others {as bs : List Row} {r : Row} (h : (keys (as ++ r :: bs)).Nodup) :
    r.cmd ∉ keys (as ++ bs) := by
  rw [keys, List.map_append, List.map_cons, List.nodup_middle, List.nodup_cons] at h
  rw [keys, List.map_append]
  exact h.1

/-- The processes of the rows are children of the supervisor, the last ones
started for their command lines. -/
structure Traced (rows : List Row) (calls : List Call) (children : List (Pid × Text)) : Prop where
  last : ∀ r ∈ rows, lastStarted r.cmd calls = some r.pid
  child : ∀ r ∈ rows, (r.pid, r.cmd) ∈ children
  distinct : (children.map (·.1)).Nodup

namespace Traced

variable {rows as bs : List Row} {r : Row} {calls : List Call} {children : List (Pid × Text)} {p : Pid} {c : Text}

theorem subset (h : Traced rows calls children) (hs : as ⊆ rows) : Traced as calls children :=
  ⟨fun r hr => h.last r (hs hr), fun r hr => h.child r (hs hr), h.distinct⟩

theorem kill (h : Traced rows calls children) : Traced rows (.kill p :: calls) children :=
  ⟨h.last, h.child, h.distinct⟩

theorem waited (h : Traced rows calls children) (hp : ∀ r ∈ rows, r.pid ≠ p) :
    Traced rows calls (children.filter (·.1 ≠ p)) where
  last := h.last
  child := fun r hr => List.mem_filter.mpr ⟨h.child r hr, by simpa using hp r hr⟩
  distinct := h.distinct.sublist (List.filter_sublist.map _)

/-- A process started for a command line that has no row. -/
theorem forked (h : Traced rows calls children) (hc : c ∉ keys rows) (hp : p ∉ children.map (·.1)) :
    Traced rows (.start c p :: calls) ((p, c) :: children) where
  last := fun r hr => by
    have hne : c ≠ r.cmd := fun e => hc (e ▸ List.mem_map_of_mem hr)
    rw [lastStarted, if_neg hne]
    exact h.last r hr
  child := fun r hr => List.mem_cons_of_mem _ (h.child r hr)
  distinct := by rw [List.map_cons, List.nodup_cons]; exact ⟨hp, h.distinct⟩

/-- A process started for the command line of a new row. -/
theorem started (h : Traced (as ++ bs) calls children) (hc : r.cmd ∉ keys (as ++ bs))
    (hp : r.pid ∉ children.map (·.1)) :
    Traced (as ++ r :: bs) (.start r.cmd r.pid :: calls) ((r.pid, r.cmd) :: children) := by
  have hf := h.forked hc hp
  have hm : ∀ q ∈ as ++ r :: bs, q = r ∨ q ∈ as ++ bs := fun q hq => by
    rcases List.mem_append.mp hq with hq | hq
    · exact .inr (List.mem_append_left _ hq)
    · exact (List.mem_cons.mp hq).imp_right (List.mem_append_right _)
  refine ⟨fun q hq => ?_, fun q hq => ?_, hf.distinct⟩
  · rcases hm q hq with rfl | hq
    · exact if_pos rfl
    · exact hf.last q hq
  · rcases hm q hq with rfl | hq
    · exact List.mem_cons_self
    · exact hf.child q hq

/-- Rows with the same process have the same command line. -/
theorem cmd_eq {q : Row} (h : Traced rows calls children) (hq : q ∈ rows) (hr : r ∈ rows) (hp : q.pid = r.pid) :
    q.cmd = r.cmd :=
  congrArg Prod.snd (List.inj_on_of_nodup_map h.distinct (h.child q hq) (h.child r hr) hp)

/-- A row is taken out and its process waited for. -/
theorem dropped (h : Traced (as ++ r :: bs) calls children) (hn : (keys (as ++ r :: bs)).Nodup) :
    Traced (as ++ bs) calls (children.filter (·.1 ≠ r.pid)) := by
  have hs := others_subset as r bs
  refine (h.subset hs).waited fun q hq e => cmd_notMem_others hn ?_
  rw [← h.cmd_eq (hs hq) (by simp) e]
  exact List.mem_map_of_mem hq

end Traced

/-! ## Counting -/

/-- What `processCount` counts where the loop stands. -/
def Counted (rows : List Row) (s : Supervisor) : Prop :=
  match s.phase with
  | .reading _ => s.channelList.Nodup ∧ s.processCount = s.channelList.countP (· ∈ keys rows)
  | .closing rest =>
    (s.channelList.Nodup ∧ s.processCount = s.channelList.countP (· ∈ keys rows)) ∧
      ∀ k ∈ keys rows, k ∈ s.channelList ∨ k ∈ rest
  | _ => s.processCount = rows.length

/-- Listed command lines are counted once each. -/
theorem countP_keys {ks l : List Text} (hk : ks.Nodup) (hl : l.Nodup) (hs : ks ⊆ l) :
    l.countP (· ∈ ks) = ks.length := by
  rw [List.countP_eq_length_filter]
  refine ((List.perm_ext_iff_of_nodup (hl.filter _) hk).mpr fun c => ?_).length_eq
  rw [List.mem_filter, decide_eq_true_eq]
  exact ⟨fun h => h.2, fun h => ⟨hs h, h⟩⟩

theorem countP_congr_keys {ks ks' l : List Text} (h : ∀ c ∈ l, c ∈ ks ↔ c ∈ ks') :
    l.countP (· ∈ ks) = l.countP (· ∈ ks') :=
  List.countP_congr fun c hc => by simpa using h c hc

theorem countP_listed_of_mem {ks l : List Text} {c : Text} (h : c ∈ ks) :
    (l ++ [c]).countP (· ∈ ks) = l.countP (· ∈ ks) + 1 := by
  rw [List.countP_append, List.countP_singleton, if_pos (decide_eq_true h)]

theorem countP_listed_of_notMem {ks l : List Text} {c : Text} (h : c ∉ ks) :
    (l ++ [c]).countP (· ∈ ks) = l.countP (· ∈ ks) := by
  rw [List.countP_append, List.countP_singleton, if_neg (by simpa using h), Nat.add_zero]

/-- A row leaves with its command line. -/
theorem mem_keys_others {as bs : List Row} {r : Row} (c : Text) :
    c ∈ keys (as ++ r :: bs) ↔ c = r.cmd ∨ c ∈ keys (as ++ bs) := by
  simp only [keys, List.map_append, List.map_cons, List.mem_append, List.mem_cons]
  exact or_left_comm

theorem nodup_listed {ops : PathOps} {conf : Config} {s : Supervisor} {line : Text} (h : s.channelList.Nodup)
    (hr : ¬Repeated ops conf s line) : (s.channelList ++ [lineCmd ops conf s line]).Nodup :=
  List.nodup_append.mpr ⟨h, List.nodup_singleton _, fun _ hc _ hd e =>
    hr (.inl (List.mem_singleton.mp hd ▸ e ▸ hc))⟩

/-- The table, the processes and the count agree. -/
structure Consistent (rows : List Row) (s : Supervisor) : Prop where
  table : Table rows s.workers s.hProcesses
  traced : Traced rows s.calls s.children
  counted : Counted rows s

variable {ops : PathOps} {conf : Config} {s t : Supervisor} {rows rows' : List Row} {a : Answer}

theorem Consistent.waiting (h : Consistent rows s) (ticks : Nat) (hp : s.phase = .waiting ticks) :
    s.processCount = rows.length := by
  have := h.counted
  rwa [Counted, hp] at this

theorem traced_move (m : Move ops conf s rows a t rows') (hk : Kernel s a) (hn : (keys rows).Nodup)
    (h : Traced rows s.calls s.children) : Traced rows' t.calls t.children := by
  cases m with
  | full line rest pid hp hl hr hc ha hf =>
    have hp' := (hk pid ha).2
    rw [unwaited_of_reading hp] at hp'
    exact (h.forked hc hp').kill
  | started line rest pid ws hs hp hl hr hc ha hf =>
    have hp' := (hk pid ha).2
    rw [unwaited_of_reading hp] at hp'
    rw [← List.append_nil rows] at h hc
    exact Traced.started h hc hp'
  | closed as r bs rest ws hs hp hr hc =>
    subst hr
    exact (h.subset (others_subset as r bs)).kill
  | unknown ticks pid hp ha hq => exact h.waited hq
  | restarted ticks as r bs pid hs hp ha hr hf =>
    subst hr
    have hp' := (hk pid hf).2
    rw [unwaited_of_stopped hp ha] at hp'
    exact Traced.started (r := { r with pid := pid }) (h.dropped hn) (cmd_notMem_others (r := r) hn) hp'
  | lost ticks as r bs ws hs hp ha hr hf =>
    subst hr
    exact h.dropped hn
  | _ => exact h

theorem counted_move (m : Move ops conf s rows a t rows') (tb : Table rows s.workers s.hProcesses)
    (h : Counted rows s) : Counted rows' t := by
  cases m with
  | unopened hp ha => rw [Counted, hp] at h; exact h
  | opened content hp ha => exact ⟨List.nodup_nil, rfl⟩
  | skipped line rest hp hl => rw [Counted, hp] at h; exact h
  | repeated line rest hp hl hr => rw [Counted, hp] at h; exact h
  | listed line rest hp hl hr hc =>
    rw [Counted, hp] at h
    refine ⟨nodup_listed h.1 hr, ?_⟩
    show s.processCount + 1 = List.countP _ (s.channelList ++ _)
    rw [countP_listed_of_mem hc, h.2]
  | unstarted line rest hp hl hr hc ha =>
    rw [Counted, hp] at h
    exact ⟨nodup_listed h.1 hr, h.2.trans (countP_listed_of_notMem hc).symm⟩
  | full line rest pid hp hl hr hc ha hf =>
    rw [Counted, hp] at h
    exact ⟨nodup_listed h.1 hr, h.2.trans (countP_listed_of_notMem hc).symm⟩
  | started line rest pid ws hs hp hl hr hc ha hf =>
    rw [Counted, hp] at h
    refine ⟨nodup_listed h.1 hr, ?_⟩
    show s.processCount + 1 = List.countP _ (s.channelList ++ _)
    rw [countP_listed_of_mem (by simp [keys]), h.2]
    congr 1
    apply countP_congr_keys
    intro c hc
    have : c ≠ lineCmd ops conf s line := fun e => hr (.inl (e ▸ hc))
    simp [keys, this]
  | readAll hp =>
    rw [Counted, hp] at h
    refine ⟨h, fun k hk => .inr ?_⟩
    obtain ⟨w, hw, rfl⟩ := tb.mem_keys.mpr hk
    exact List.mem_map_of_mem hw
  | kept key rest hp hc =>
    rw [Counted, hp] at h
    refine ⟨h.1, fun k hk => ?_⟩
    rcases h.2 k hk with hl | hl
    · exact .inl hl
    · rcases List.mem_cons.mp hl with rfl | hl
      · exact .inl (hc hk)
      · exact .inr hl
  | closed as r bs rest ws hs hp hr hc =>
    subst hr
    rw [Counted, hp] at h
    refine ⟨⟨h.1.1, ?_⟩, fun k hk' => ?_⟩
    · show s.processCount = _
      rw [h.1.2]
      exact countP_congr_keys fun c hl => (mem_keys_others c).trans (or_iff_right fun e => hc (e ▸ hl))
    · rcases h.2 k ((mem_keys_others k).mpr (.inr hk')) with hl | hl
      · exact .inl hl
      · rcases List.mem_cons.mp hl with rfl | hl
        · exact absurd hk' (cmd_notMem_others tb.keys)
        · exact .inr hl
  | closedAll hp =>
    rw [Counted, hp] at h
    show s.processCount = rows.length
    rw [h.1.2, countP_keys tb.keys h.1.1 fun k hk => (h.2 k hk).resolve_right (by simp), List.length_map]
  | watch hp =>
    rw [Counted, hp] at h
    by_cases h0 : 0 < s.processCount
    · rw [if_pos h0]
      exact h
    · rw [if_neg h0]
      exact h
  | waited hp => rw [Counted, hp] at h; exact h
  | tick ticks hp ha => rw [Counted, hp] at h; exact h
  | unknown ticks pid hp ha hq =>
    rw [Counted, hp] at h
    rw [Counted]
    simp only [hp]
    exact h
  | restarted ticks as r bs pid hs hp ha hr hf =>
    subst hr
    rw [Counted, hp] at h
    rw [Counted]
    simp only [fork, hp]
    rw [h]
    simp
  | lost ticks as r bs ws hs hp ha hr hf =>
    subst hr
    rw [Counted, hp] at h
    rw [Counted]
    simp only [hp]
    rw [h]
    simp

/-- Every step returns and keeps the table, the processes and the count in agreement. -/
theorem Consistent.steps (ops : PathOps) (conf : Config) (h : Consistent rows s) (hk : Kernel s a) :
    ∃ t rows', step ops conf s a = some t ∧ Move ops conf s rows a t rows' ∧ Consistent rows' t := by
  obtain ⟨t, rows', hs, tb, m⟩ := step_move ops conf h.table h.waiting fun p hp => (hk p hp).1
  exact ⟨t, rows', hs, m, tb, traced_move m hk h.table.keys h.traced, counted_move m h.table h.counted⟩

theorem consistent_main (conf : Config) : Consistent [] (main conf) where
  table := table_nil
  traced := ⟨fun _ h => (by cases h), fun _ h => (by cases h), List.nodup_nil⟩
  counted := rfl

theorem consistent_run (h : Reach (step ops conf) Kernel (main conf) s) : ∃ rows, Consistent rows s := by
  refine Reach.invariant (fun s => ∃ rows, Consistent rows s) ⟨[], consistent_main conf⟩ ?_ h
  rintro s a t ⟨rows, hc⟩ hk hs
  obtain ⟨t', rows', hs', -, hc'⟩ := hc.steps ops conf hk
  obtain rfl := Option.some.inj (hs.symm.trans hs')
  exact ⟨rows', hc'⟩

/-! ## The table as the code reads it -/

/-- `workers` numbers the slots in use, and `hProcesses` holds the process of
each worker in its slot and nothing behind. -/
structure TableOk (s : Supervisor) : Prop where
  size : s.hProcesses.length = csMaxProcessCount
  slots : (s.workers.map (·.slot)).Perm (List.range s.workers.length)
  running : ∀ i < s.workers.length, ∃ p, s.hProcesses[i]? = some p ∧ p ≠ 0
  free : ∀ i, s.workers.length ≤ i → i < csMaxProcessCount → s.hProcesses[i]? = some 0
  own : ∀ w ∈ s.workers, ∃ p, s.hProcesses[w.slot]? = some p ∧ lastStarted w.cmd s.calls = some p

theorem Consistent.tableOk (h : Consistent rows s) : TableOk s where
  size := h.table.length_processes
  slots := by
    rw [h.table.length_workers, List.range_eq_range', ← slot_number]
    exact h.table.workers.map _
  running := fun i hi => h.table.get_lt (h.table.length_workers ▸ hi)
  free := fun i hn hi => h.table.get_ge (h.table.length_workers ▸ hn) hi
  own := fun w hw => by
    obtain ⟨as, r, bs, rfl, rfl⟩ := h.table.mem_workers.mp hw
    exact ⟨r.pid, h.table.get_row, h.traced.last r (by simp)⟩

/-- A worker that exits is started again with its own command line, in its own slot. -/
theorem Consistent.restarts (h : Consistent rows s) {w : Worker} (hw : w ∈ s.workers) {ticks : Nat}
    (hp : s.phase = .waiting (ticks + 1)) (hk : Kernel s a) (ha : a.stopped = lastStarted w.cmd s.calls) {p : Pid}
    (hf : a.fork = some p) : ∃ t, step ops conf s a = some t ∧ t.workers = s.workers ∧
      t.calls = .start w.cmd p :: s.calls ∧ t.hProcesses[w.slot]? = some p := by
  obtain ⟨as, r, bs, rfl, rfl⟩ := h.table.mem_workers.mp hw
  rw [h.traced.last r (by simp)] at ha
  obtain ⟨t, rows', hs, m, hc⟩ := h.steps ops conf hk
  refine ⟨t, hs, ?_⟩
  cases m with
  | unknown _ pid hp' ha' hn =>
    cases ha.symm.trans ha'
    exact absurd rfl (hn r (by simp))
  | restarted _ as' r' bs' pid h' hp' ha' hr hf' =>
    cases hf.symm.trans hf'
    have hpid : r.pid = r'.pid := Option.some.inj (ha.symm.trans ha')
    have hcmd : r.cmd = r'.cmd := h.traced.cmd_eq (by simp) (by rw [hr]; simp) hpid
    have hslot : as'.length = as.length := by
      have hw' := h.table.mem_workers.mpr ⟨as', r', bs', hr, rfl⟩
      have hn : (s.workers.map (·.cmd)).Nodup := h.table.perm_keys.nodup_iff.mpr h.table.keys
      exact congrArg Worker.slot (List.inj_on_of_nodup_map hn hw' hw hcmd.symm)
    refine ⟨rfl, by rw [hcmd]; rfl, ?_⟩
    have hg := hc.table.get_row
    rwa [hslot] at hg
  | lost _ as' r' bs' ws h' hp' ha' hr hf' => cases hf.symm.trans hf'
  | tick _ hp' ha' => cases ha.symm.trans ha'
  | _ hp' => cases hp.symm.trans ‹_›

/-- In every run, whatever the lists, the forks and the exits: the slots of the
workers are the first ones, each used once and holding the process last
started for the worker's command line; no index is out of bounds; the count is
right wherever the loop watches; and an exited worker comes back with its own
command line. -/
theorem process_table_consistent (h : Reach (step ops conf) Kernel (main conf) s) :
    TableOk s ∧
    (∀ a, Kernel s a → ∃ t, step ops conf s a = some t) ∧
    (s.phase = .watching ∨ (∃ ticks, s.phase = .waiting ticks) → s.processCount = s.workers.length) ∧
    ∀ w ∈ s.workers, ∀ ticks a p, s.phase = .waiting (ticks + 1) → Kernel s a →
      a.stopped = lastStarted w.cmd s.calls → a.fork = some p → ∃ t, step ops conf s a = some t ∧
        t.workers = s.workers ∧ t.calls = .start w.cmd p :: s.calls ∧ t.hProcesses[w.slot]? = some p := by
  obtain ⟨rows, hc⟩ := consistent_run h
  refine ⟨hc.tableOk, fun a hk => ?_, fun hp => ?_, fun w hw ticks a p hp hk ha hf => hc.restarts hw hp hk ha hf⟩
  · obtain ⟨t, -, hs, -⟩ := hc.steps ops conf hk
    exact ⟨t, hs⟩
  · have hn := hc.counted
    rw [hc.table.length_workers]
    rcases hp with hp | ⟨ticks, hp⟩ <;> rwa [Counted, hp] at hn

/-- `/=` and `remove_leaf` on paths whose names are separated by one slash. -/
def slashPaths : PathOps where
  append path leaf := if path.getLast? = some '/' then path ++ leaf else path ++ '/' :: leaf
  removeLeaf path := ((path.reverse.dropWhile (· ≠ '/')).dropWhile (· = '/')).reverse

/-- The values the supervisor has without a `cutter_base.ini`. -/
def defaultConfig : Config where
  workDir := "./".toList
  cacheTime := "30".toList
  headCacheTime := "3600".toList
  rtmpProxyUrl := "http://127.0.0.1:8080/gate2rtmp.php?rtmp_url=".toList

/-- Nothing that the step asks for. -/
def nothing : Answer := ⟨none, none, none⟩

/-- Two channels are started, the first one exits and is started again, and then its line is gone. -/
def twoChannels : List Answer :=
  [⟨some "a http://x/a 5\nb http://x/b 5".toList, none, none⟩, ⟨none, some 7, none⟩, ⟨none, some 8, none⟩,
    nothing, nothing, nothing, nothing, nothing, ⟨none, some 9, some 7⟩,
    nothing, nothing, nothing, nothing, nothing, nothing,
    ⟨some "b http://x/b 5".toList, none, none⟩, nothing, nothing, nothing, nothing, nothing, nothing]

theorem process_table_consistent_twoChannels :
    ∃ s, runIf (step slashPaths defaultConfig) Kernel (main defaultConfig) twoChannels = some s ∧
      s.calls = [.kill 9, .start "./cutterworker http://x/a ./a 30 3600 5".toList 9,
        .start "./cutterworker http://x/b ./b 30 3600 5".toList 8,
        .start "./cutterworker http://x/a ./a 30 3600 5".toList 7] ∧
      TableOk s ∧ s.processCount = s.workers.length := by
  have hr : ((runIf (step slashPaths defaultConfig) Kernel (main defaultConfig) twoChannels).map fun s =>
      (s.phase, s.calls)) = some (.waiting 5, [.kill 9, .start "./cutterworker http://x/a ./a 30 3600 5".toList 9,
        .start "./cutterworker http://x/b ./b 30 3600 5".toList 8,
        .start "./cutterworker http://x/a ./a 30 3600 5".toList 7]) := by decide +kernel
  obtain ⟨s, hs, he⟩ := Option.map_eq_some_iff.mp hr
  obtain ⟨hp, hc⟩ := Prod.mk.inj he
  obtain ⟨ht, -, hn, -⟩ := process_table_consistent (Reach.of_runIf hs)
  exact ⟨s, hs, hc, ht, hn (.inr ⟨_, hp⟩)⟩

end XH.Proof.Processor
