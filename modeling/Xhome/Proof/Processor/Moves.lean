import Xhome.Proof.Processor.Table

/-!
# What a step of the supervisor does

`Move` lists what one step of the main loop can do to the rows of the table
and to the other variables; `step_move`: from a consistent table every step
returns, with such a move and a consistent table again.
-/

namespace XH.Proof.Processor

open XH.Impl.Processor

/-- The command lines that have a row. -/
abbrev keys (rows : List Row) : List Text := rows.map (·.cmd)

section

variable (ops : PathOps) (conf : Config)

/-- `work_path` at the directory of a line's channel. -/
def channelPath (s : Supervisor) (line : Text) : Text := ops.append s.workPath (parseChannel line).guid

/-- The command line of a line. -/
def lineCmd (s : Supervisor) (line : Text) : Text := cmdLine conf (channelPath ops s line) (parseChannel line)

/-- The line repeats a command line or a guid. -/
def Repeated (s : Supervisor) (line : Text) : Prop :=
  lineCmd ops conf s line ∈ s.channelList ∨ (parseChannel line).guid ∈ s.channelIdSet

instance (s : Supervisor) (line : Text) : Decidable (Repeated ops conf s line) := instDecidableOr

/-- The state behind a line that holds a channel. -/
def lineRead (s : Supervisor) (line : Text) (rest : List Text) : Supervisor :=
  { s with phase := .reading rest, workPath := ops.removeLeaf (channelPath ops s line) }

/-- The state behind a line that is no repetition. -/
def lineListed (s : Supervisor) (line : Text) (rest : List Text) : Supervisor :=
  { lineRead ops s line rest with channelList := s.channelList ++ [lineCmd ops conf s line] }

/-- What a step does to the supervisor and to the rows. -/
inductive Move (s : Supervisor) (rows : List Row) (a : Answer) : Supervisor → List Row → Prop
  | unopened (hp : s.phase = .opening) (ha : a.list = none) : Move s rows a { s with phase := .watching } rows
  | opened (content : Text) (hp : s.phase = .opening) (ha : a.list = some content) : Move s rows a
      { s with
        phase := .reading (getlines content)
        content := content
        channelList := []
        channelIdSet := []
        processCount := 0 } rows
  | skipped (line : Text) (rest : List Text) (hp : s.phase = .reading (line :: rest)) (hl : isSkipped line = true) :
      Move s rows a { s with phase := .reading rest } rows
  | repeated (line : Text) (rest : List Text) (hp : s.phase = .reading (line :: rest)) (hl : isSkipped line = false)
      (hr : Repeated ops conf s line) : Move s rows a (lineRead ops s line rest) rows
  | listed (line : Text) (rest : List Text) (hp : s.phase = .reading (line :: rest)) (hl : isSkipped line = false)
      (hr : ¬Repeated ops conf s line) (hk : lineCmd ops conf s line ∈ keys rows) :
      Move s rows a { lineListed ops conf s line rest with processCount := s.processCount + 1 } rows
  | unstarted (line : Text) (rest : List Text) (hp : s.phase = .reading (line :: rest)) (hl : isSkipped line = false)
      (hr : ¬Repeated ops conf s line) (hk : lineCmd ops conf s line ∉ keys rows) (ha : a.fork = none) :
      Move s rows a (lineListed ops conf s line rest) rows
  | full (line : Text) (rest : List Text) (pid : Pid) (hp : s.phase = .reading (line :: rest))
      (hl : isSkipped line = false) (hr : ¬Repeated ops conf s line) (hk : lineCmd ops conf s line ∉ keys rows)
      (ha : a.fork = some pid) (hf : rows.length = csMaxProcessCount - 1) : Move s rows a
        (kill (fork (lineListed ops conf s line rest) (lineCmd ops conf s line) pid) pid) rows
  | started (line : Text) (rest : List Text) (pid : Pid) (ws : List Worker) (h : List Pid)
      (hp : s.phase = .reading (line :: rest)) (hl : isSkipped line = false) (hr : ¬Repeated ops conf s line)
      (hk : lineCmd ops conf s line ∉ keys rows) (ha : a.fork = some pid) (hf : rows.length < csMaxProcessCount - 1) :
      Move s rows a
        { fork (lineListed ops conf s line rest) (lineCmd ops conf s line) pid with
          workers := ws
          hProcesses := h
          channelIdSet := (parseChannel line).guid :: s.channelIdSet
          processCount := s.processCount + 1 }
        (rows ++ [⟨lineCmd ops conf s line, (parseChannel line).guid, pid⟩])
  | readAll (hp : s.phase = .reading []) : Move s rows a { s with phase := .closing (s.workers.map (·.cmd)) } rows
  | kept (key : Text) (rest : List Text) (hp : s.phase = .closing (key :: rest))
      (hk : key ∈ keys rows → key ∈ s.channelList) : Move s rows a { s with phase := .closing rest } rows
  | closed (as : List Row) (r : Row) (bs : List Row) (rest : List Text) (ws : List Worker) (h : List Pid)
      (hp : s.phase = .closing (r.cmd :: rest)) (hr : rows = as ++ r :: bs) (hc : r.cmd ∉ s.channelList) :
      Move s rows a { kill { s with phase := .closing rest } r.pid with workers := ws, hProcesses := h } (as ++ bs)
  | closedAll (hp : s.phase = .closing []) : Move s rows a { s with phase := .watching } rows
  | watch (hp : s.phase = .watching) :
      Move s rows a { s with phase := if 0 < s.processCount then .waiting 5 else .opening } rows
  | waited (hp : s.phase = .waiting 0) : Move s rows a { s with phase := .opening } rows
  | tick (ticks : Nat) (hp : s.phase = .waiting (ticks + 1)) (ha : a.stopped = none) :
      Move s rows a { s with phase := .waiting ticks } rows
  | unknown (ticks : Nat) (pid : Pid) (hp : s.phase = .waiting (ticks + 1)) (ha : a.stopped = some pid)
      (hn : ∀ r ∈ rows, r.pid ≠ pid) :
      Move s rows a { s with children := s.children.filter (·.1 ≠ pid) } rows
  | restarted (ticks : Nat) (as : List Row) (r : Row) (bs : List Row) (pid : Pid) (h : List Pid)
      (hp : s.phase = .waiting (ticks + 1)) (ha : a.stopped = some r.pid) (hr : rows = as ++ r :: bs)
      (hf : a.fork = some pid) : Move s rows a
        (fork { s with children := s.children.filter (·.1 ≠ r.pid), hProcesses := h } r.cmd pid)
        (as ++ { r with pid := pid } :: bs)
  | lost (ticks : Nat) (as : List Row) (r : Row) (bs : List Row) (ws : List Worker) (h : List Pid)
      (hp : s.phase = .waiting (ticks + 1)) (ha : a.stopped = some r.pid) (hr : rows = as ++ r :: bs)
      (hf : a.fork = none) : Move s rows a
        { s with
          children := s.children.filter (·.1 ≠ r.pid)
          workers := ws
          hProcesses := h
          processCount := s.processCount - 1 }
        (as ++ bs)

/-- A step returns, with a move of the supervisor and a consistent table. -/
def Steps (s : Supervisor) (rows : List Row) (a : Answer) : Prop :=
  ∃ t rows', step ops conf s a = some t ∧ Table rows' t.workers t.hProcesses ∧ Move ops conf s rows a t rows'

end

variable {ops : PathOps} {conf : Config} {s : Supervisor} {rows : List Row} {a : Answer}

theorem Move.steps {t : Supervisor} {rows' : List Row} (m : Move ops conf s rows a t rows')
    (ht : Table rows' t.workers t.hProcesses) (h : step ops conf s a = some t) : Steps ops conf s rows a :=
  ⟨t, rows', h, ht, m⟩

/-! ## Reading -/

theorem any_workers (t : Table rows s.workers s.hProcesses) (c : Text) :
    s.workers.any (·.cmd = c) = true ↔ c ∈ keys rows := by
  rw [← t.mem_keys, List.any_eq_true]
  simp only [decide_eq_true_eq]

theorem readLine_skipped {line : Text} (hl : isSkipped line = true) (forked : Option Pid) :
    readLine ops conf s line forked = some s := by
  rw [readLine, if_pos hl]

/-- A line that holds a channel, in its parts. -/
theorem readLine_channel {line : Text} {rest : List Text} (hl : isSkipped line = false) (forked : Option Pid) :
    readLine ops conf { s with phase := .reading rest } line forked =
      if Repeated ops conf s line then some (lineRead ops s line rest)
      else acceptChannel (lineRead ops s line rest) (lineCmd ops conf s line) (parseChannel line).guid forked := by
  rw [readLine, if_neg (by rw [hl]; decide)]
  rfl

theorem steps_channel (t : Table rows s.workers s.hProcesses) {line : Text} {rest : List Text}
    (hp : s.phase = .reading (line :: rest)) (hl : isSkipped line = false) (hpid : ∀ p, a.fork = some p → p ≠ 0) :
    Steps ops conf s rows a := by
  have hstep : step ops conf s a = readLine ops conf { s with phase := .reading rest } line a.fork := by
    rw [step, hp]
  rw [readLine_channel hl] at hstep
  by_cases hr : Repeated ops conf s line
  · rw [if_pos hr] at hstep
    exact (Move.repeated line rest hp hl hr).steps t hstep
  rw [if_neg hr, acceptChannel] at hstep
  by_cases hk : lineCmd ops conf s line ∈ keys rows
  · have hany : (lineRead ops s line rest).workers.any (·.cmd = lineCmd ops conf s line) = true :=
      (any_workers t _).mpr hk
    simp only [hany, if_true] at hstep
    exact (Move.listed line rest hp hl hr hk).steps t hstep
  have hany : (lineRead ops s line rest).workers.any (·.cmd = lineCmd ops conf s line) = false := by
    rw [← Bool.not_eq_true]
    exact fun h => hk ((any_workers t _).mp h)
  simp only [hany, Bool.false_eq_true, if_false] at hstep
  rcases ha : a.fork with _ | pid
  · rw [ha, startWorker] at hstep
    exact (Move.unstarted line rest hp hl hr hk ha).steps t hstep
  have hslot := t.freeSlot_eq (csMaxProcessCount - 1) 0 (Nat.zero_le _) (Nat.zero_add _)
  rw [ha] at hstep
  by_cases hf : rows.length < csMaxProcessCount - 1
  · rw [if_pos hf] at hslot
    have hst := Table.store_eq (h := s.hProcesses) pid (by rw [t.length_processes]; exact t.fits)
    have hstart := t.start (r := ⟨lineCmd ops conf s line, (parseChannel line).guid, pid⟩) (hpid pid ha) hk hf
    apply (Move.started line rest pid _ _ hp hl hr hk ha hf).steps hstart
    rw [hstep]
    simp only [startWorker, fork, lineRead, lineListed, hslot, hst, Option.bind_eq_bind, Option.bind_some, if_true]
  · rw [if_neg hf] at hslot
    have hfits := t.fits
    apply (Move.full line rest pid hp hl hr hk ha (by omega)).steps t
    rw [hstep]
    simp only [startWorker, fork, kill, lineRead, lineListed, hslot, Option.bind_eq_bind, Option.bind_some,
      Bool.false_eq_true, if_false]

/-! ## Closing -/

theorem find?_cmd (t : Table rows s.workers s.hProcesses) (key : Text) :
    (s.workers.find? (·.cmd = key) = none ∧ key ∉ keys rows) ∨
    ∃ as r bs, rows = as ++ r :: bs ∧ r.cmd = key ∧
      s.workers.find? (·.cmd = key) = some ⟨r.cmd, as.length, r.guid⟩ := by
  rcases hf : s.workers.find? (·.cmd = key) with _ | w
  · refine .inl ⟨hf, fun hk => ?_⟩
    obtain ⟨w, hw, hc⟩ := t.mem_keys.mpr hk
    simpa [hc] using List.find?_eq_none.mp hf w hw
  · obtain ⟨as, r, bs, hr, rfl⟩ := t.mem_workers.mp (List.mem_of_find?_eq_some hf)
    exact .inr ⟨as, r, bs, hr, by simpa using List.find?_some hf, hf⟩

theorem steps_closing (t : Table rows s.workers s.hProcesses) {key : Text} {rest : List Text}
    (hp : s.phase = .closing (key :: rest)) : Steps ops conf s rows a := by
  have hstep : step ops conf s a = closeDeleted { s with phase := .closing rest } key := by rw [step, hp]
  rcases find?_cmd t key with ⟨hf, hk⟩ | ⟨as, r, bs, rfl, rfl, hf⟩
  · refine (Move.kept key rest hp fun h => absurd h hk).steps t (hstep.trans ?_)
    simp only [closeDeleted, hf]
  by_cases hc : r.cmd ∈ s.channelList
  · refine (Move.kept r.cmd rest hp fun _ => hc).steps t (hstep.trans ?_)
    simp only [closeDeleted, hf, if_pos hc]
  · obtain ⟨ws, h, ht, hd⟩ := dropWorker_eq (s := kill { s with phase := .closing rest } r.pid) t as.length r.guid
    refine (Move.closed as r bs rest ws h hp rfl hc).steps ht (hstep.trans ?_)
    simp only [closeDeleted, hf, if_neg hc, t.get_row, Option.bind_eq_bind, Option.bind_some]
    exact hd

/-! ## Watching -/

/-- The search through the processes finds a row with the process, or there is none. -/
theorem findProcess_eq {ws : List Worker} {h : List Pid} (t : Table rows ws h) (pid : Pid) (tries i : Nat)
    (hi : i + tries = rows.length) :
    (findProcess h pid tries i = some none ∧ ∀ r ∈ rows.drop i, r.pid ≠ pid) ∨
    ∃ as r bs, rows = as ++ r :: bs ∧ r.pid = pid ∧ findProcess h pid tries i = some (some as.length) := by
  induction tries generalizing i with
  | zero =>
    refine .inl ⟨rfl, fun r hr => ?_⟩
    rw [List.drop_eq_nil_of_le (by omega)] at hr
    cases hr
  | succ tries ih =>
    have hlt : i < rows.length := by omega
    have hsplit : rows = rows.take i ++ rows[i] :: rows.drop (i + 1) := by
      rw [List.getElem_cons_drop, List.take_append_drop]
    have hlen : (rows.take i).length = i := by rw [List.length_take]; omega
    have hget : h[i]? = some rows[i].pid := by
      have := (hsplit ▸ t : Table (rows.take i ++ rows[i] :: rows.drop (i + 1)) ws h).get_row
      rwa [hlen] at this
    by_cases he : rows[i].pid = pid
    · refine .inr ⟨_, _, _, hsplit, he, ?_⟩
      rw [hlen]
      simp only [findProcess, hget, Option.bind_eq_bind, Option.bind_some, he, if_true]
    · simp only [findProcess, hget, Option.bind_eq_bind, Option.bind_some, he, if_false]
      rcases ih (i + 1) (by omega) with ⟨h₁, h₂⟩ | h₁
      · refine .inl ⟨h₁, fun r hr => ?_⟩
        rw [← List.getElem_cons_drop hlt] at hr
        rcases List.mem_cons.mp hr with rfl | hr
        · exact he
        · exact h₂ r hr
      · exact .inr h₁

theorem find?_slot {as bs : List Row} {r : Row} (t : Table (as ++ r :: bs) s.workers s.hProcesses) :
    s.workers.find? (·.slot = as.length) = some ⟨r.cmd, as.length, r.guid⟩ := by
  rcases hf : s.workers.find? (·.slot = as.length) with _ | w
  · have hw := t.mem_workers.mpr ⟨as, r, bs, rfl, rfl⟩
    simpa using List.find?_eq_none.mp hf _ hw
  · obtain ⟨as', r', bs', he, rfl⟩ := t.mem_workers.mp (List.mem_of_find?_eq_some hf)
    have hl : as'.length = as.length := by simpa using List.find?_some hf
    obtain ⟨rfl, hc⟩ := List.append_inj he hl.symm
    obtain ⟨rfl, -⟩ := List.cons.inj hc
    exact hf

theorem steps_stopped (t : Table rows s.workers s.hProcesses) {ticks : Nat} {pid : Pid}
    (hp : s.phase = .waiting (ticks + 1)) (ha : a.stopped = some pid) (hn : s.processCount = rows.length)
    (hpid : ∀ p, a.fork = some p → p ≠ 0) : Steps ops conf s rows a := by
  have hstep : step ops conf s a = onStopped s pid a.fork := by
    rw [step, hp]
    simp only [ha]
  rcases findProcess_eq t pid s.processCount 0 (by omega) with ⟨hf, hk⟩ | ⟨as, r, bs, rfl, rfl, hf⟩
  · refine (Move.unknown ticks pid hp ha hk).steps t (hstep.trans ?_)
    simp only [onStopped, hf, Option.bind_eq_bind, Option.bind_some]
  have hr : onStopped s r.pid a.fork =
      reStartProcess { s with children := s.children.filter (·.1 ≠ r.pid) } as.length a.fork := by
    simp only [onStopped, hf, Option.bind_eq_bind, Option.bind_some]
  rcases hfork : a.fork with _ | p
  · obtain ⟨ws, h, ht, hd⟩ := dropWorker_eq (s := { s with children := s.children.filter (·.1 ≠ r.pid) }) t as.length r.guid
    refine (Move.lost ticks as r bs ws h hp ha rfl hfork).steps ht ((hstep.trans hr).trans ?_)
    simp only [reStartProcess, find?_slot t, hfork, hd, Option.map_some]
  · obtain ⟨hst, ht⟩ := t.restart (hpid p hfork)
    refine (Move.restarted ticks as r bs p _ hp ha rfl hfork).steps ht ((hstep.trans hr).trans ?_)
    simp only [reStartProcess, find?_slot t, hfork, hst, Option.bind_eq_bind, Option.bind_some]

/-- From a consistent table every step returns, and the table is consistent again. -/
theorem step_move (ops : PathOps) (conf : Config) (t : Table rows s.workers s.hProcesses)
    (hn : ∀ ticks, s.phase = .waiting ticks → s.processCount = rows.length)
    (hpid : ∀ p, a.fork = some p → p ≠ 0) : Steps ops conf s rows a := by
  rcases hp : s.phase with _ | lines | cmds | _ | ticks
  · rcases ha : a.list with _ | content
    · exact (Move.unopened hp ha).steps t (by simp only [step, hp, ha])
    · exact (Move.opened content hp ha).steps t (by simp only [step, hp, ha])
  · rcases lines with _ | ⟨line, rest⟩
    · exact (Move.readAll hp).steps t (by simp only [step, hp])
    · rcases hl : isSkipped line with _ | _
      · exact steps_channel t hp hl hpid
      · exact (Move.skipped line rest hp hl).steps t (by simp only [step, hp]; exact readLine_skipped hl a.fork)
  · rcases cmds with _ | ⟨key, rest⟩
    · exact (Move.closedAll hp).steps t (by simp only [step, hp])
    · exact steps_closing t hp
  · exact (Move.watch hp).steps t (by simp only [step, hp])
  · rcases ticks with _ | ticks
    · exact (Move.waited hp).steps t (by simp only [step, hp])
    · rcases ha : a.stopped with _ | pid
      · exact (Move.tick ticks hp ha).steps t (by simp only [step, hp, ha])
      · exact steps_stopped t hp ha (hn _ hp) hpid

end XH.Proof.Processor
