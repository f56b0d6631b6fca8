import Xhome.Proof.Processor.Supervisor

/-!
# One worker for each channel

A command line holds its channel's guid (`cmdLine_guid`), so the guid of a row
is the guid of every line that lists it. Where a list gives each guid one
command line (`Orderly`), no two workers have the same guid after a pass; and
where every line also got its worker (`Served`), a further pass over the list
makes no call (`one_worker_per_channel`). `channel_id_set` holds the guids
started in the same pass only: a guid on two lines gets a second worker in the
next pass (`second_worker_started`).
-/

namespace XH.Proof.Processor

open XH.Impl.Processor

/-! ## Command lines -/

/-- Two texts with equally many separators in front of a common one have it at the same place. -/
theorem split_eq_of_count {c : Char} {a b x y : Text} (h : a ++ c :: x = b ++ c :: y) (hc : a.count c = b.count c) :
    a = b ∧ x = y := by
  rcases List.append_eq_append_iff.mp h with ⟨d, rfl, hd⟩ | ⟨d, rfl, hd⟩
  · rcases d with _ | ⟨e, d⟩
    · exact ⟨(List.append_nil a).symm, (List.cons.inj hd).2⟩
    · obtain ⟨rfl, -⟩ := List.cons.inj hd
      rw [List.count_append, List.count_cons_self] at hc
      omega
  · rcases d with _ | ⟨e, d⟩
    · exact ⟨List.append_nil b, ((List.cons.inj hd).2).symm⟩
    · obtain ⟨rfl, -⟩ := List.cons.inj hd
      rw [List.count_append, List.count_cons_self] at hc
      omega

theorem count_readWord (ss : Text) : (readWord ss).1.count ' ' = 0 := by
  rw [List.count_eq_zero]
  intro h
  have hs := List.all_eq_true.mp List.all_takeWhile _ h
  simp [isSpace] at hs

theorem cmdLine_eq (conf : Config) (path : Text) (ch : Channel) : cmdLine conf path ch =
    "./cutterworker ".toList ++ (workerUrl conf ch.url ++ ' ' :: (path ++ ' ' :: (conf.cacheTime ++
      ' ' :: (conf.headCacheTime ++ ' ' :: ch.interval)))) := by
  show _ ++ _ ++ [' '] ++ _ ++ ([' '] ++ _ ++ [' '] ++ _) ++ ([' '] ++ _) = _
  simp only [List.append_assoc, List.cons_append, List.nil_append]

/-- The command lines of two lines are the same only if their guids are. -/
theorem cmdLine_guid {conf : Config} {base l l' : Text}
    (h : cmdLine conf (base ++ (parseChannel l).guid) (parseChannel l) =
      cmdLine conf (base ++ (parseChannel l').guid) (parseChannel l')) :
    (parseChannel l).guid = (parseChannel l').guid := by
  have hg : ∀ l, (parseChannel l).guid.count ' ' = 0 := fun l => count_readWord _
  have hi : ∀ l, (parseChannel l).interval.count ' ' = 0 := fun l => count_readWord _
  rw [cmdLine_eq, cmdLine_eq] at h
  have h₁ := List.append_cancel_left h
  -- the urls hold equally many blanks, since everything else does
  have hu : (workerUrl conf (parseChannel l).url).count ' ' = (workerUrl conf (parseChannel l').url).count ' ' := by
    have hc := congrArg (List.count ' ') h₁
    simp only [List.count_append, List.count_cons_self, hg, hi] at hc
    omega
  have h₂ := (split_eq_of_count h₁ hu).2
  have hp : (base ++ (parseChannel l).guid).count ' ' = (base ++ (parseChannel l').guid).count ' ' := by
    rw [List.count_append, List.count_append, hg, hg]
  exact List.append_cancel_left (split_eq_of_count h₂ hp).1

/-! ## Lists and passes -/

/-- The lines of a list that hold a channel. -/
def channels (content : Text) : List Text := (getlines content).filter (!isSkipped ·)

/-- A name that `/=` appends and `remove_leaf` takes off again. -/
def Plain (name : Text) : Prop := name ≠ [] ∧ '/' ∉ name

instance (name : Text) : Decidable (Plain name) := instDecidableAnd

/-- What the supervisor uses of `/=` and `remove_leaf`: appending a plain name
to a spelling of the working directory gives one path, and removing it gives a
spelling of the directory again. -/
structure WorkPath (ops : PathOps) (dir base : Text) (home : Text → Prop) : Prop where
  start : home dir
  append : ∀ path name, home path → Plain name → ops.append path name = base ++ name
  removeLeaf : ∀ name, Plain name → home (ops.removeLeaf (base ++ name))

/-- Every guid is a plain name, and the lines with a guid give its worker the
same url and interval. -/
def OrderlyList (conf : Config) (content : Text) : Prop :=
  (∀ l ∈ channels content, Plain (parseChannel l).guid) ∧
  ∀ l ∈ channels content, ∀ l' ∈ channels content, (parseChannel l).guid = (parseChannel l').guid →
    workerUrl conf (parseChannel l).url = workerUrl conf (parseChannel l').url ∧
    (parseChannel l).interval = (parseChannel l').interval

instance (conf : Config) (content : Text) : Decidable (OrderlyList conf content) := instDecidableAnd

/-- The list that a step opens is orderly. -/
def Orderly (conf : Config) (s : Supervisor) (a : Answer) : Prop :=
  Kernel s a ∧ ∀ content ∈ a.list, s.phase = .opening → OrderlyList conf content

instance (conf : Config) (s : Supervisor) (a : Answer) : Decidable (Orderly conf s a) := instDecidableAnd

/-- The line that the step reads. -/
def nextLine (s : Supervisor) : Option Text :=
  match s.phase with
  | .reading (line :: _) => some line
  | _ => none

/-- A line without a worker finds a process and a slot. -/
def Served (ops : PathOps) (conf : Config) (s : Supervisor) (a : Answer) : Prop :=
  ∀ line ∈ nextLine s, isSkipped line = false → s.workers.any (·.cmd = lineCmd ops conf s line) = true ∨
    (a.fork.isSome = true ∧ s.workers.length < csMaxProcessCount - 1)

instance (ops : PathOps) (conf : Config) (s : Supervisor) (a : Answer) : Decidable (Served ops conf s a) :=
  Option.decidableForallMem _

theorem phase_of_nextLine {s : Supervisor} {line : Text} (h : line ∈ nextLine s) :
    ∃ rest, s.phase = .reading (line :: rest) := by
  rw [nextLine] at h
  split at h
  · cases h
    exact ⟨_, ‹_›⟩
  · cases h

/-- A pass over the list `content`, or a wait, without an exit. -/
def Quiet (content : Text) (s : Supervisor) (a : Answer) : Prop :=
  Kernel s a ∧ a.stopped = none ∧ ∀ c ∈ a.list, c = content

instance (content : Text) (s : Supervisor) (a : Answer) : Decidable (Quiet content s a) := instDecidableAnd

/-- The command line of a line while `work_path` is the working directory. -/
def listCmd (conf : Config) (base line : Text) : Text :=
  cmdLine conf (base ++ (parseChannel line).guid) (parseChannel line)

theorem mem_channels {content line : Text} (h : line ∈ getlines content) (hl : isSkipped line = false) :
    line ∈ channels content :=
  List.mem_filter.mpr ⟨h, by rw [hl]; rfl⟩

theorem OrderlyList.listCmd_eq {conf : Config} {content : Text} (h : OrderlyList conf content) (base : Text)
    {l l' : Text} (hl : l ∈ channels content) (hl' : l' ∈ channels content)
    (hg : (parseChannel l).guid = (parseChannel l').guid) : listCmd conf base l = listCmd conf base l' := by
  obtain ⟨hu, hi⟩ := h.2 l hl l' hl' hg
  rw [listCmd, listCmd, cmdLine_eq, cmdLine_eq, hu, hi, hg]

section

variable {ops : PathOps} {conf : Config} {base : Text} {home : Text → Prop} {s t : Supervisor}
  {rows rows' : List Row} {a : Answer}

/-- The rows and the accepted lines are lines of lists, and `work_path` is where it was. -/
structure Labelled (conf : Config) (base : Text) (home : Text → Prop) (rows : List Row) (s : Supervisor) : Prop where
  guid : ∀ r ∈ rows, ∃ l, r.cmd = listCmd conf base l ∧ r.guid = (parseChannel l).guid
  path : home s.workPath
  orderly : OrderlyList conf s.content
  listed : ∀ c ∈ s.channelList, ∃ l ∈ channels s.content, c = listCmd conf base l
  rest : ∀ rest, s.phase = .reading rest → ∀ l ∈ rest, l ∈ getlines s.content

namespace Labelled

/-- The command line of the next line, and `work_path` behind it. -/
theorem line (h : Labelled conf base home rows s) (hw : WorkPath ops conf.workDir base home) {line : Text}
    {rest : List Text} (hp : s.phase = .reading (line :: rest)) (hl : isSkipped line = false) :
    line ∈ channels s.content ∧ lineCmd ops conf s line = listCmd conf base line ∧
      home (ops.removeLeaf (channelPath ops s line)) := by
  have hm := mem_channels (h.rest _ hp line List.mem_cons_self) hl
  have hplain := h.orderly.1 line hm
  have he : channelPath ops s line = base ++ (parseChannel line).guid := hw.append _ _ h.path hplain
  refine ⟨hm, ?_, he ▸ hw.removeLeaf _ hplain⟩
  rw [lineCmd, he, listCmd]

/-- A step that reads a line. -/
theorem reads (h : Labelled conf base home rows s) (hw : WorkPath ops conf.workDir base home) {line : Text}
    {rest : List Text} (hp : s.phase = .reading (line :: rest)) (hl : isSkipped line = false)
    (hpath : t.workPath = ops.removeLeaf (channelPath ops s line)) (hc : t.content = s.content)
    (hrest : t.phase = .reading rest)
    (hlist : ∀ c ∈ t.channelList, c ∈ s.channelList ∨ c = lineCmd ops conf s line)
    (hr : ∀ r ∈ rows', r ∈ rows ∨ (r.cmd = lineCmd ops conf s line ∧ r.guid = (parseChannel line).guid)) :
    Labelled conf base home rows' t := by
  obtain ⟨hm, hcmd, hhome⟩ := h.line hw hp hl
  refine ⟨fun r hr' => ?_, hpath ▸ hhome, hc ▸ h.orderly, fun c hc' => ?_, fun rest' hp' l hl' => ?_⟩
  · rcases hr r hr' with hr' | ⟨h₁, h₂⟩
    · exact h.guid r hr'
    · exact ⟨line, h₁.trans hcmd, h₂⟩
  · rw [hc]
    rcases hlist c hc' with hc' | rfl
    · exact h.listed c hc'
    · exact ⟨line, hm, hcmd⟩
  · cases hrest.symm.trans hp'
    rw [hc]
    exact h.rest _ hp l (List.mem_cons_of_mem _ hl')

/-- A step that reads no list. -/
theorem keeps (h : Labelled conf base home rows s) (hpath : t.workPath = s.workPath) (hc : t.content = s.content)
    (hlist : t.channelList = s.channelList) (hp : ∀ rest, t.phase ≠ .reading rest)
    (hr : ∀ r ∈ rows', ∃ q ∈ rows, r.cmd = q.cmd ∧ r.guid = q.guid) : Labelled conf base home rows' t := by
  refine ⟨fun r hr' => ?_, hpath ▸ h.path, hc ▸ h.orderly, ?_, fun rest hp' => absurd hp' (hp rest)⟩
  · obtain ⟨q, hq, h₁, h₂⟩ := hr r hr'
    rw [h₁, h₂]
    exact h.guid q hq
  · rw [hlist, hc]
    exact h.listed

theorem move (h : Labelled conf base home rows s) (hw : WorkPath ops conf.workDir base home)
    (m : Move ops conf s rows a t rows') (ho : Orderly conf s a) : Labelled conf base home rows' t := by
  have hsame : ∀ r ∈ rows, ∃ q ∈ rows, r.cmd = q.cmd ∧ r.guid = q.guid := fun r hr => ⟨r, hr, rfl, rfl⟩
  cases m with
  | opened content hp ha =>
    refine ⟨h.guid, h.path, ho.2 content ha hp, fun c hc => absurd hc List.not_mem_nil, fun rest hr l hl => ?_⟩
    cases hr
    exact hl
  | skipped line rest hp hl =>
    refine ⟨h.guid, h.path, h.orderly, h.listed, fun rest' hr l hl => ?_⟩
    cases hr
    exact h.rest _ hp l (List.mem_cons_of_mem _ hl)
  | repeated line rest hp hl hr => exact h.reads hw hp hl rfl rfl rfl (fun c hc => .inl hc) fun r hr => .inl hr
  | listed line rest hp hl hr hk =>
    exact h.reads hw hp hl rfl rfl rfl (fun c hc => (List.mem_append.mp hc).imp_right List.mem_singleton.mp)
      fun r hr => .inl hr
  | unstarted line rest hp hl hr hk ha =>
    exact h.reads hw hp hl rfl rfl rfl (fun c hc => (List.mem_append.mp hc).imp_right List.mem_singleton.mp)
      fun r hr => .inl hr
  | full line rest pid hp hl hr hk ha hf =>
    exact h.reads hw hp hl rfl rfl rfl (fun c hc => (List.mem_append.mp hc).imp_right List.mem_singleton.mp)
      fun r hr => .inl hr
  | started line rest pid ws hs hp hl hr hk ha hf =>
    refine h.reads hw hp hl rfl rfl rfl (fun c hc => (List.mem_append.mp hc).imp_right List.mem_singleton.mp)
      fun r hr => (List.mem_append.mp hr).imp_right fun hr => ?_
    obtain rfl := List.mem_singleton.mp hr
    exact ⟨rfl, rfl⟩
  | closed as r bs rest ws hs hp hr hc =>
    subst hr
    exact h.keeps rfl rfl rfl (fun _ => by simp [kill]) fun q hq => ⟨q, others_subset as r bs hq, rfl, rfl⟩
  | watch hp =>
    refine h.keeps rfl rfl rfl (fun rest hr => ?_) hsame
    have hr : (if 0 < s.processCount then Phase.waiting 5 else .opening) = .reading rest := hr
    split at hr <;> cases hr
  | unknown ticks pid hp ha hn => exact h.keeps rfl rfl rfl (fun rest => by simp [hp]) hsame
  | restarted ticks as r bs pid hs hp ha hr hf =>
    subst hr
    refine h.keeps rfl rfl rfl (fun rest => by simp [fork, hp]) fun q hq => ?_
    rcases List.mem_append.mp hq with hq | hq
    · exact ⟨q, List.mem_append_left _ hq, rfl, rfl⟩
    · rcases List.mem_cons.mp hq with rfl | hq
      · exact ⟨r, by simp, rfl, rfl⟩
      · exact ⟨q, List.mem_append_right _ (List.mem_cons_of_mem _ hq), rfl, rfl⟩
  | lost ticks as r bs ws hs hp ha hr hf =>
    subst hr
    exact h.keeps rfl rfl rfl (fun rest => by simp [hp]) fun q hq => ⟨q, others_subset as r bs hq, rfl, rfl⟩
  | _ => exact h.keeps rfl rfl rfl (fun _ => by simp) hsame

end Labelled

theorem labelled_main (hw : WorkPath ops conf.workDir base home) : Labelled conf base home [] (main conf) where
  guid := fun r hr => by cases hr
  path := hw.start
  orderly :=
    have he : ∀ l, l ∉ channels [] := fun _ => List.not_mem_nil
    ⟨fun l hl => absurd hl (he l), fun l hl => absurd hl (he l)⟩
  listed := fun c hc => by cases hc
  rest := fun rest hr => by cases hr

/-- A run over orderly lists. -/
theorem labelled_run (hw : WorkPath ops conf.workDir base home)
    (h : Reach (step ops conf) (Orderly conf) (main conf) s) :
    ∃ rows, Consistent rows s ∧ Labelled conf base home rows s := by
  refine Reach.invariant (fun s => ∃ rows, Consistent rows s ∧ Labelled conf base home rows s)
    ⟨[], consistent_main conf, labelled_main hw⟩ ?_ h
  rintro s a t ⟨rows, hc, hl⟩ ho hs
  obtain ⟨t', rows', hs', m, hc'⟩ := hc.steps ops conf ho.1
  obtain rfl := Option.some.inj (hs.symm.trans hs')
  exact ⟨rows', hc', hl.move hw m ho⟩

/-- At the end of a pass every row is listed. -/
theorem Consistent.keys_listed (h : Consistent rows s) (hp : s.phase = .closing []) :
    ∀ k ∈ keys rows, k ∈ s.channelList := by
  have hc := h.counted
  rw [Counted, hp] at hc
  exact fun k hk => (hc.2 k hk).resolve_right List.not_mem_nil

/-- At the end of a pass no two workers have the same guid. -/
theorem nodup_guids (hc : Consistent rows s) (hl : Labelled conf base home rows s) (hp : s.phase = .closing []) :
    (s.workers.map (·.guid)).Nodup := by
  have hperm : (s.workers.map (·.guid)).Perm (rows.map (·.guid)) := by
    rw [← guid_number 0]
    exact hc.table.workers.map _
  refine hperm.nodup_iff.mpr (List.Nodup.map_on (fun r hr r' hr' hg => ?_) hc.table.keys.of_map)
  obtain ⟨l, hl₁, hl₂⟩ := hl.guid r hr
  obtain ⟨l', hl₁', hl₂'⟩ := hl.guid r' hr'
  -- the lines of the list that the rows are listed by have their guids
  obtain ⟨m, hm, hm'⟩ := hl.listed r.cmd (hc.keys_listed hp _ (List.mem_map_of_mem hr))
  obtain ⟨n, hn, hn'⟩ := hl.listed r'.cmd (hc.keys_listed hp _ (List.mem_map_of_mem hr'))
  have hgm : (parseChannel l).guid = (parseChannel m).guid := cmdLine_guid (hl₁.symm.trans hm')
  have hgn : (parseChannel l').guid = (parseChannel n).guid := cmdLine_guid (hl₁'.symm.trans hn')
  have hcmd : r.cmd = r'.cmd := by
    rw [hm', hn']
    apply hl.orderly.listCmd_eq base hm hn
    rw [← hgm, ← hgn, ← hl₂, ← hl₂', hg]
  exact List.inj_on_of_nodup_map hc.table.keys hr hr' hcmd

/-! ## A further pass -/

/-- The lines read so far are accepted. -/
def Covered (conf : Config) (base : Text) (s : Supervisor) : Prop :=
  match s.phase with
  | .reading rest => ∀ l ∈ channels s.content, l ∈ rest ∨ listCmd conf base l ∈ s.channelList
  | .closing _ => ∀ l ∈ channels s.content, listCmd conf base l ∈ s.channelList
  | _ => True

/-- The accepted lines have their workers. -/
def Running (rows : List Row) (s : Supervisor) : Prop :=
  match s.phase with
  | .reading _ => ∀ c ∈ s.channelList, c ∈ keys rows
  | .closing _ => ∀ c ∈ s.channelList, c ∈ keys rows
  | _ => True

/-- A guid of `channel_id_set` is on an accepted line. -/
def Noted (conf : Config) (base : Text) (s : Supervisor) : Prop :=
  ∀ g ∈ s.channelIdSet, ∃ l ∈ channels s.content, (parseChannel l).guid = g ∧ listCmd conf base l ∈ s.channelList

/-- A line that repeats another one is covered by it. -/
theorem Labelled.covered_of_repeated (h : Labelled conf base home rows s) (hw : WorkPath ops conf.workDir base home)
    (hn : Noted conf base s) {line : Text} {rest : List Text} (hp : s.phase = .reading (line :: rest))
    (hl : isSkipped line = false) (hr : Repeated ops conf s line) : listCmd conf base line ∈ s.channelList := by
  obtain ⟨hm, hcmd, -⟩ := h.line hw hp hl
  rcases hr with hr | hr
  · rwa [hcmd] at hr
  · obtain ⟨l, hl, hg, hc⟩ := hn _ hr
    rwa [h.orderly.listCmd_eq base hl hm hg] at hc

/-- Every line read so far has its worker. -/
structure Placed (conf : Config) (base : Text) (rows : List Row) (s : Supervisor) : Prop where
  covered : Covered conf base s
  running : Running rows s
  noted : Noted conf base s

namespace Placed

theorem elsewhere (hr : ∀ rest, s.phase ≠ .reading rest) (hc : ∀ rest, s.phase ≠ .closing rest)
    (hn : Noted conf base s) : Placed conf base rows s := by
  refine ⟨?_, ?_, hn⟩
  · rw [Covered]
    split
    · exact absurd ‹_› (hr _)
    · exact absurd ‹_› (hc _)
    · trivial
  · rw [Running]
    split
    · exact absurd ‹_› (hr _)
    · exact absurd ‹_› (hc _)
    · trivial

/-- A step that accepts a line whose worker is in the table behind it. -/
theorem accepts (h : Placed conf base rows s) (hl : Labelled conf base home rows s)
    (hw : WorkPath ops conf.workDir base home) {line : Text} {rest : List Text}
    (hp : s.phase = .reading (line :: rest)) (hs : isSkipped line = false) (hc : t.content = s.content)
    (hrest : t.phase = .reading rest) (hlist : t.channelList = s.channelList ++ [lineCmd ops conf s line])
    (hrows : keys rows ⊆ keys rows') (hk : lineCmd ops conf s line ∈ keys rows')
    (hn : ∀ g ∈ t.channelIdSet, g ∈ s.channelIdSet ∨ g = (parseChannel line).guid) : Placed conf base rows' t := by
  obtain ⟨hcov, hrun, hnote⟩ := h
  obtain ⟨hm, hcmd, -⟩ := hl.line hw hp hs
  rw [Covered, hp] at hcov
  rw [Running, hp] at hrun
  have hmem : listCmd conf base line ∈ t.channelList := by rw [hlist, hcmd]; simp
  have hsub : ∀ c ∈ s.channelList, c ∈ t.channelList := fun c hc => by rw [hlist]; exact List.mem_append_left _ hc
  refine ⟨?_, ?_, fun g hg => ?_⟩
  · rw [Covered, hrest, hc]
    intro l hl
    rcases hcov l hl with hl | hl
    · rcases List.mem_cons.mp hl with rfl | hl
      · exact .inr hmem
      · exact .inl hl
    · exact .inr (hsub _ hl)
  · rw [Running, hrest, hlist]
    intro c hc
    rcases List.mem_append.mp hc with hc | hc
    · exact hrows (hrun c hc)
    · exact List.mem_singleton.mp hc ▸ hk
  · rw [hc]
    rcases hn g hg with hg | rfl
    · obtain ⟨l, h₁, h₂, h₃⟩ := hnote g hg
      exact ⟨l, h₁, h₂, hsub _ h₃⟩
    · exact ⟨line, hm, rfl, hmem⟩

theorem move (h : Placed conf base rows s) (hl : Labelled conf base home rows s) (hc : Consistent rows s)
    (hw : WorkPath ops conf.workDir base home) (m : Move ops conf s rows a t rows') (hs : Served ops conf s a) :
    Placed conf base rows' t := by
  obtain ⟨hcov, hrun, hnote⟩ := h
  cases m with
  | opened content hp ha =>
    refine ⟨fun l hl => .inl (List.mem_of_mem_filter hl), fun c hc => absurd hc List.not_mem_nil,
      fun g hg => absurd hg List.not_mem_nil⟩
  | skipped line rest hp hl' =>
    rw [Covered, hp] at hcov
    rw [Running, hp] at hrun
    refine ⟨fun l hm => ?_, hrun, hnote⟩
    rcases hcov l hm with h | h
    · rcases List.mem_cons.mp h with rfl | h
      · have := (List.mem_filter.mp hm).2
        rw [hl'] at this
        cases this
      · exact .inl h
    · exact .inr h
  | repeated line rest hp hl' hr =>
    have hmem := hl.covered_of_repeated hw hnote hp hl' hr
    rw [Covered, hp] at hcov
    rw [Running, hp] at hrun
    refine ⟨fun l hm => ?_, hrun, hnote⟩
    rcases hcov l hm with h | h
    · rcases List.mem_cons.mp h with rfl | h
      · exact .inr hmem
      · exact .inl h
    · exact .inr h
  | listed line rest hp hl' hr hk =>
    exact accepts ⟨hcov, hrun, hnote⟩ hl hw hp hl' rfl rfl rfl (fun c hc => hc) hk fun g hg => .inl hg
  | unstarted line rest hp hl' hr hk ha =>
    rcases hs line (by rw [nextLine, hp]; rfl) hl' with hs | hs
    · exact absurd ((any_workers hc.table _).mp hs) hk
    · rw [ha] at hs
      exact absurd hs.1 (by decide)
  | full line rest pid hp hl' hr hk ha hf =>
    rcases hs line (by rw [nextLine, hp]; rfl) hl' with hs | hs
    · exact absurd ((any_workers hc.table _).mp hs) hk
    · rw [hc.table.length_workers] at hs
      exact absurd hs.2 (by omega)
  | started line rest pid ws h hp hl' hr hk ha hf =>
    refine accepts ⟨hcov, hrun, hnote⟩ hl hw hp hl' rfl rfl rfl (fun c hc => ?_) (by simp [keys])
      fun g hg => (List.mem_cons.mp hg).symm
    rw [keys, List.map_append]
    exact List.mem_append_left _ hc
  | readAll hp =>
    rw [Covered, hp] at hcov
    rw [Running, hp] at hrun
    exact ⟨fun l hm => (hcov l hm).resolve_left List.not_mem_nil, hrun, hnote⟩
  | kept key rest hp hk =>
    rw [Covered, hp] at hcov
    rw [Running, hp] at hrun
    exact ⟨hcov, hrun, hnote⟩
  | closed as r bs rest ws h hp hr hk =>
    subst hr
    rw [Covered, hp] at hcov
    rw [Running, hp] at hrun
    refine ⟨hcov, fun c hc => ?_, hnote⟩
    have hm := hrun c hc
    have hne : c ≠ r.cmd := fun e => hk (e ▸ hc)
    simp only [keys, List.map_append, List.map_cons, List.mem_append, List.mem_cons, hne, false_or] at hm ⊢
    exact hm
  | watch hp =>
    refine elsewhere (fun rest hr => ?_) (fun rest hr => ?_) hnote
    · have hr : (if 0 < s.processCount then Phase.waiting 5 else .opening) = .reading rest := hr
      split at hr <;> cases hr
    · have hr : (if 0 < s.processCount then Phase.waiting 5 else .opening) = .closing rest := hr
      split at hr <;> cases hr
  | unknown ticks pid hp ha hn => exact elsewhere (fun _ => by simp [hp]) (fun _ => by simp [hp]) hnote
  | restarted ticks as r bs pid h hp ha hr hf =>
    exact elsewhere (fun _ => by simp [fork, hp]) (fun _ => by simp [fork, hp]) hnote
  | lost ticks as r bs ws h hp ha hr hf =>
    exact elsewhere (fun _ => by simp [hp]) (fun _ => by simp [hp]) hnote
  | _ => exact elsewhere (fun _ => by simp) (fun _ => by simp) hnote

end Placed

/-- A run over orderly lists in which every line gets its worker. -/
theorem placed_run (hw : WorkPath ops conf.workDir base home)
    (h : Reach (step ops conf) (fun s a => Orderly conf s a ∧ Served ops conf s a) (main conf) s) :
    ∃ rows, Consistent rows s ∧ Labelled conf base home rows s ∧ Placed conf base rows s := by
  refine Reach.invariant (fun s => ∃ rows, Consistent rows s ∧ Labelled conf base home rows s ∧ Placed conf base rows s)
    ⟨[], consistent_main conf, labelled_main hw, trivial, trivial, fun g hg => by cases hg⟩ ?_ h
  rintro s a t ⟨rows, hc, hl, hp⟩ ⟨ho, hs⟩ ht
  obtain ⟨t', rows', ht', m, hc'⟩ := hc.steps ops conf ho.1
  obtain rfl := Option.some.inj (ht.symm.trans ht')
  exact ⟨rows', hc', hl.move hw m ho, hp.move hl hc hw m hs⟩

/-- The rows are those of the list, and no call has been made since. -/
structure Settled (conf : Config) (base : Text) (content : Text) (calls : List Call) (rows : List Row)
    (s : Supervisor) : Prop where
  list : s.content = content
  quiet : s.calls = calls
  rows : ∀ c, c ∈ keys rows ↔ ∃ l ∈ channels content, c = listCmd conf base l

theorem settled_of_closed (hc : Consistent rows s) (hl : Labelled conf base home rows s)
    (hp : Placed conf base rows s) (he : s.phase = .closing []) :
    Settled conf base s.content s.calls rows s := by
  obtain ⟨hcov, hrun, -⟩ := hp
  rw [Covered, he] at hcov
  rw [Running, he] at hrun
  refine ⟨rfl, rfl, fun c => ⟨fun hk => hl.listed c (hc.keys_listed he c hk), ?_⟩⟩
  rintro ⟨l, hm, rfl⟩
  exact hrun _ (hcov l hm)

theorem Settled.line {content : Text} {calls : List Call} (h : Settled conf base content calls rows s)
    (hl : Labelled conf base home rows s) (hw : WorkPath ops conf.workDir base home) {line : Text} {rest : List Text}
    (hp : s.phase = .reading (line :: rest)) (hs : isSkipped line = false) : lineCmd ops conf s line ∈ keys rows := by
  obtain ⟨hm, hcmd, -⟩ := hl.line hw hp hs
  exact (h.rows _).mpr ⟨line, h.list ▸ hm, hcmd⟩

/-- A quiet step makes no call. -/
theorem Settled.move {content : Text} {calls : List Call} (h : Settled conf base content calls rows s)
    (hl : Labelled conf base home rows s) (hp : Placed conf base rows s) (hw : WorkPath ops conf.workDir base home)
    (m : Move ops conf s rows a t rows') (hq : Quiet content s a) : Settled conf base content calls rows' t := by
  cases m with
  | opened c hp ha => exact ⟨hq.2.2 c ha, h.quiet, h.rows⟩
  | unstarted line rest hp hs hr hk ha => exact absurd (h.line hl hw hp hs) hk
  | full line rest pid hp hs hr hk ha hf => exact absurd (h.line hl hw hp hs) hk
  | started line rest pid ws h' hp hs hr hk ha hf => exact absurd (h.line hl hw hp hs) hk
  | closed as r bs rest ws hs hp' hr hk =>
    have hcov := hp.covered
    rw [Covered, hp'] at hcov
    obtain ⟨l, hm, he⟩ := (h.rows r.cmd).mp (by rw [hr]; simp [keys])
    exact absurd (he ▸ hcov l (h.list ▸ hm)) hk
  | unknown ticks pid hp ha hn => cases hq.2.1.symm.trans ha
  | restarted ticks as r bs pid hs hp ha hr hf => cases hq.2.1.symm.trans ha
  | lost ticks as r bs ws hs hp ha hr hf => cases hq.2.1.symm.trans ha
  | _ => exact ⟨h.list, h.quiet, h.rows⟩

/-- Passes over the list that was read last start and kill nothing. -/
theorem quiet_run (hw : WorkPath ops conf.workDir base home) (hc : Consistent rows s)
    (hl : Labelled conf base home rows s) (hp : Placed conf base rows s) (he : s.phase = .closing [])
    (h : Reach (step ops conf) (Quiet s.content) s t) : t.calls = s.calls := by
  have hs := settled_of_closed hc hl hp he
  have ho : OrderlyList conf s.content := hl.orderly
  obtain ⟨rows', -, -, -, hs'⟩ := Reach.invariant
    (fun u => ∃ rows, Consistent rows u ∧ Labelled conf base home rows u ∧ Placed conf base rows u ∧
      Settled conf base s.content s.calls rows u) ⟨rows, hc, hl, hp, hs⟩ (by
    rintro u a v ⟨rows, hc, hl, hp, hs⟩ hq hv
    obtain ⟨v', rows', hv', m, hc'⟩ := hc.steps ops conf hq.1
    obtain rfl := Option.some.inj (hv.symm.trans hv')
    have hserved : Served ops conf u a := fun line hline hsk => by
      obtain ⟨rest, hph⟩ := phase_of_nextLine hline
      exact .inl ((any_workers hc.table _).mpr (hs.line hl hw hph hsk))
    exact ⟨rows', hc', hl.move hw m ⟨hq.1, fun c hc _ => hq.2.2 c hc ▸ ho⟩, hp.move hl hc hw m hserved,
      hs.move hl hp hw m hq⟩) h
  exact hs'.quiet

/-- In every run over orderly lists no two workers have the same guid at the
end of a pass; where every line also found a process and a slot, further
passes over the list without an exit start and kill nothing. -/
theorem one_worker_per_channel (hw : WorkPath ops conf.workDir base home) :
    (∀ s, Reach (step ops conf) (Orderly conf) (main conf) s → s.phase = .closing [] →
      (s.workers.map (·.guid)).Nodup) ∧
    ∀ s t, Reach (step ops conf) (fun s a => Orderly conf s a ∧ Served ops conf s a) (main conf) s →
      s.phase = .closing [] → Reach (step ops conf) (Quiet s.content) s t → t.calls = s.calls := by
  refine ⟨fun s h hp => ?_, fun s t h hp hq => ?_⟩
  · obtain ⟨rows, hc, hl⟩ := labelled_run hw h
    exact nodup_guids hc hl hp
  · obtain ⟨rows, hc, hl, hpl⟩ := placed_run hw h
    exact quiet_run hw hc hl hpl hp hq

end

/-- The working directory `./`, which is `.` behind the first line. -/
theorem workPath_default :
    WorkPath slashPaths defaultConfig.workDir "./".toList fun path => path = "./".toList ∨ path = ".".toList where
  start := .inl rfl
  append := by
    rintro path name (rfl | rfl) -
    · rfl
    · rfl
  removeLeaf := fun name hn => by
    right
    have he : ("./".toList ++ name).reverse = name.reverse ++ "/.".toList := List.reverse_append
    show ((("./".toList ++ name).reverse.dropWhile _).dropWhile _).reverse = _
    rw [he, List.dropWhile_append_of_pos fun c hc => ?_]
    · rfl
    · have hne : c ≠ '/' := fun e => hn.2 (e ▸ List.mem_reverse.mp hc)
      simpa using hne

/-- A pass over two lines with a wait behind it, up to the next list. -/
def passOfTwo (list : Text) (first second : Option Pid) : List Answer :=
  [⟨some list, none, none⟩, ⟨none, first, none⟩, ⟨none, second, none⟩, nothing]

/-- From the end of a pass to the next list. -/
def wait : List Answer := List.replicate 8 nothing

def twoGuids : Text := "a http://x/1 5\nb http://x/2 5".toList

theorem one_worker_per_channel_twoGuids : ∃ s t,
    runIf (step slashPaths defaultConfig) (fun s a => Orderly defaultConfig s a ∧ Served slashPaths defaultConfig s a)
      (main defaultConfig) (passOfTwo twoGuids (some 7) (some 8) ++ [nothing, nothing]) = some s ∧
    runIf (step slashPaths defaultConfig) (Quiet twoGuids) s
      (wait ++ passOfTwo twoGuids (some 9) (some 9) ++ [nothing, nothing]) = some t ∧
    s.workers.length = 2 ∧ (s.workers.map (·.guid)).Nodup ∧ t.calls = s.calls := by
  have hr : ((runIf (step slashPaths defaultConfig)
        (fun s a => Orderly defaultConfig s a ∧ Served slashPaths defaultConfig s a) (main defaultConfig)
        (passOfTwo twoGuids (some 7) (some 8) ++ [nothing, nothing])).bind fun s =>
      (runIf (step slashPaths defaultConfig) (Quiet twoGuids) s
        (wait ++ passOfTwo twoGuids (some 9) (some 9) ++ [nothing, nothing])).map fun _ =>
          (s.phase, s.content, s.workers.length)) = some (.closing [], twoGuids, 2) := by decide +kernel
  obtain ⟨s, hs, hr⟩ := Option.bind_eq_some_iff.mp hr
  obtain ⟨t, ht, he⟩ := Option.map_eq_some_iff.mp hr
  obtain ⟨hp, he⟩ := Prod.mk.inj he
  obtain ⟨hc, hl⟩ := Prod.mk.inj he
  have h := one_worker_per_channel workPath_default
  exact ⟨s, t, hs, ht, hl, h.1 s ((Reach.of_runIf hs).mono fun _ _ h => h.1) hp,
    h.2 s t (Reach.of_runIf hs) hp (hc ▸ Reach.of_runIf ht)⟩

/-- What is seen of a pass. -/
structure Report where
  phase : Phase
  content : Text
  calls : Nat
  guids : List Text
  deriving DecidableEq

def report (s : Supervisor) : Report := ⟨s.phase, s.content, s.calls.length, s.workers.map (·.guid)⟩

def sharedGuid : Text := "g http://x/1 5\ng http://x/2 5".toList

/-- A guid on two lines: the pass over the same list starts a second worker for it. -/
theorem second_worker_started : ∃ s t,
    Reach (step slashPaths defaultConfig) Kernel (main defaultConfig) s ∧ s.phase = .closing [] ∧
    Reach (step slashPaths defaultConfig) (Quiet s.content) s t ∧ t.phase = .closing [] ∧ t.calls ≠ s.calls ∧
    Reach (step slashPaths defaultConfig) Kernel (main defaultConfig) t ∧ ¬(t.workers.map (·.guid)).Nodup := by
  have hr : ((runIf (step slashPaths defaultConfig) Kernel (main defaultConfig)
        (passOfTwo sharedGuid (some 7) none ++ [nothing])).bind fun s =>
      (runIf (step slashPaths defaultConfig) (Quiet sharedGuid) s
        (wait ++ passOfTwo sharedGuid none (some 8) ++ [nothing, nothing])).map fun t =>
          (report s, report t)) =
      some (⟨.closing [], sharedGuid, 1, ["g".toList]⟩, ⟨.closing [], sharedGuid, 2, ["g".toList, "g".toList]⟩) := by
    decide +kernel
  obtain ⟨s, hs, hr⟩ := Option.bind_eq_some_iff.mp hr
  obtain ⟨t, ht, he⟩ := Option.map_eq_some_iff.mp hr
  obtain ⟨hs', ht'⟩ := Prod.mk.inj he
  obtain ⟨hp, hc, hn, -⟩ := Report.mk.inj hs'
  obtain ⟨hp', -, hn', hg⟩ := Report.mk.inj ht'
  have h₁ : Reach (step slashPaths defaultConfig) Kernel (main defaultConfig) s := Reach.of_runIf hs
  have h₂ : Reach (step slashPaths defaultConfig) (Quiet sharedGuid) s t := Reach.of_runIf ht
  refine ⟨s, t, h₁, hp, hc ▸ h₂, hp', fun e => ?_, h₁.trans (h₂.mono fun _ _ h => h.1), ?_⟩
  · rw [e, hn] at hn'
    cases hn'
  · rw [hg]
    decide

end XH.Proof.Processor
