import Xhome.Proof.Cutter.Backwards
import Xhome.Proof.Cutter.LastTs
import Xhome.Proof.Cutter.Restart

/-!
# The media time across a restart

`GetLastTsInPiece` finds the last timestamp of a block (`getLastTsInPiece_eq`).
`Init` asks it about the last block in the newest directory only. That block need
not have an audio or video tag with a timestamp: the blocks written off air have
none. So the media time survives a restart exactly if the last block has one, or
if no block has (`media_time_survives`).
-/

namespace XH.Proof.Cutter

open XH.Impl.Cutter

/-! ## The tags of a block -/

/-- The tags one after the other. -/
def tagsFrom : Nat → List Byte → List Buffer
  | 0, _ => []
  | n + 1, d => if d.length < flvTagheaderTSize then [] else d.take (tagSize d) :: tagsFrom n (d.drop (tagSize d))

/-- The tags of a block file, behind the block header and the file header. -/
def blockTags (c : List Byte) : List Buffer :=
  tagsFrom c.length (c.drop (flvBlockHeaderTSize + flvFileheaderTSize))

theorem length_tagsFrom_le : ∀ (n : Nat) (d : List Byte), (tagsFrom n d).length ≤ n
  | 0, _ => Nat.le_refl 0
  | n + 1, d => by
    unfold tagsFrom
    split
    · exact Nat.zero_le _
    · exact Nat.succ_le_succ (length_tagsFrom_le n _)

/-- The timestamps other than 0 of the audio and video tags of a block file. -/
def mediaTimes (c : List Byte) : List Nat := ((blockTags c).flatMap stampOf).filter (· ≠ 0)

/-- A whole tag with its size behind it; only audio and video tags have a
timestamp. -/
structure TagOk (t : Buffer) : Prop where
  whole : t.length = tagSize t
  size : flvUI32 (t.drop (flvTagheaderTSize + tagDatasize t)) 0 = flvTagheaderTSize + tagDatasize t
  script : ¬ IsMedia t → getTagTs t = 0

theorem TagOk.tagged {t : Buffer} (h : TagOk t) : Tagged t := ⟨h.whole, h.size⟩

/-- A block file that consists of such tags behind a file header. -/
structure Regular (c : List Byte) : Prop where
  short : c.length < 2 ^ 32
  start : (c.drop (flvBlockHeaderTSize + 9)).take 4 = [0, 0, 0, 0]
  data : c.drop (flvBlockHeaderTSize + flvFileheaderTSize) = (blockTags c).flatten
  tags : ∀ t ∈ blockTags c, TagOk t

instance (t : Buffer) : Decidable (TagOk t) :=
  decidable_of_iff (t.length = tagSize t ∧
      flvUI32 (t.drop (flvTagheaderTSize + tagDatasize t)) 0 = flvTagheaderTSize + tagDatasize t ∧ (¬ IsMedia t → getTagTs t = 0))
    ⟨fun h => ⟨h.1, h.2.1, h.2.2⟩, fun h => ⟨h.whole, h.size, h.script⟩⟩

instance (c : List Byte) : Decidable (Regular c) :=
  decidable_of_iff (c.length < 2 ^ 32 ∧ (c.drop (flvBlockHeaderTSize + 9)).take 4 = [0, 0, 0, 0] ∧
      c.drop (flvBlockHeaderTSize + flvFileheaderTSize) = (blockTags c).flatten ∧ ∀ t ∈ blockTags c, TagOk t)
    ⟨fun h => ⟨h.1, h.2.1, h.2.2.1, h.2.2.2⟩, fun h => ⟨h.short, h.start, h.data, h.tags⟩⟩

/-- Only the audio and video tags have a timestamp. -/
theorem filter_stampOf {ts : List Buffer} (h : ∀ t ∈ ts, TagOk t) :
    (ts.map getTagTs).filter (· ≠ 0) = (ts.flatMap stampOf).filter (· ≠ 0) := by
  induction ts with
  | nil => rfl
  | cons t ts ih =>
    have hs : (stampOf t).filter (· ≠ 0) = [getTagTs t].filter (· ≠ 0) := by
      unfold stampOf
      split
      · rfl
      · rename_i hm
        rw [(h t List.mem_cons_self).script hm]
        rfl
    rw [List.map_cons, List.flatMap_cons, List.filter_append, hs, ← ih fun t ht => h t (List.mem_cons_of_mem _ ht),
      ← List.filter_append]
    rfl

/-! ## `GetLastTsInPiece` -/

/-- What is recovered from a regular block: the last timestamp of an audio or
video tag, or 0. -/
theorem getLastTsInPiece_eq {c : List Byte} (h : Regular c) : getLastTsInPiece c = lastNonzero ((blockTags c).flatMap stampOf) := by
  have hlen : flvBlockHeaderTSize + 9 + 4 ≤ c.length := by
    have := congrArg List.length h.start
    rw [List.length_take, List.length_drop] at this
    simp only [List.length_cons, List.length_nil] at this
    omega
  have hle : flvBlockHeaderTSize + flvFileheaderTSize ≤ c.length := hlen
  have hc : c = c.take (flvBlockHeaderTSize + flvFileheaderTSize) ++ (blockTags c).flatten ++ [] := by
    rw [← h.data, List.append_nil, List.take_append_drop]
  have hf : (c.take (flvBlockHeaderTSize + flvFileheaderTSize)).length = flvBlockHeaderTSize + flvFileheaderTSize := by
    rw [List.length_take]
    omega
  have h₀ : (c.take (flvBlockHeaderTSize + flvFileheaderTSize)).drop (flvBlockHeaderTSize + 9) = [0, 0, 0, 0] := by
    rw [← h.start, List.drop_take]
    rfl
  have htags : (blockTags c).length < c.length + 1 := Nat.lt_succ_of_le (length_tagsFrom_le _ _)
  have hloop := lastTsTrace_eq hf h₀ (blockTags c) [] (c.length + 1) (List.replicate 4 0) (List.replicate flvTagheaderTSize 0)
    (fun t ht => (h.tags t ht).tagged) (by rw [← hc]; exact h.short) htags rfl rfl
  rw [List.append_nil] at hc
  rw [List.append_nil, ← hc, ← sub32_of_le h.short (by omega)] at hloop
  obtain ⟨reads, he, -⟩ := hloop
  rw [getLastTsInPiece_of_reads he, lastNonzero, filter_stampOf h.tags]
  rfl

/-! ## What `Init` recovers -/

/-- A block of the channel and its content. -/
def BlockAt (disk : Tree) (dir : Path) (guid : Name) (id : Nat) (c : List Byte) : Prop :=
  ∃ x, disk.read (dir ++ [x, guid, blockName id]) = some c

/-- From one block to the next and inside each, the timestamps of the audio and
video tags do not go back. -/
structure TimesAscend (disk : Tree) (dir : Path) (guid : Name) : Prop where
  inside : ∀ id c, BlockAt disk dir guid id c → (mediaTimes c).Pairwise (· ≤ ·)
  across : ∀ id c id' c', BlockAt disk dir guid id c → BlockAt disk dir guid id' c' → id < id' →
    ∀ x ∈ mediaTimes c, ∀ y ∈ mediaTimes c', x ≤ y

/-- The last block of the channel is in the newest directory, whose temporary
files can be removed. -/
def Found (env : Env) (disk : Tree) (dir : Path) (guid : Name) (id : Nat) (c : List Byte) : Prop :=
  ∃ k, k ≠ 0 ∧ Newest disk dir guid k ∧ TmpsGo env disk (dir ++ [decimal k, guid]) 0 ∧
    disk.read (dir ++ [decimal k, guid, blockName id]) = some c ∧ ∀ id', OnDisk disk dir guid id' → id' ≤ id

/-- The block has not expired when `Init` reads the clock. -/
def Live (env : Env) (S life id : Nat) : Prop := ¬ i32 (sub32 (env.utc 0) id) - i32 S > i32 (blockLifeSpan life)

instance (env : Env) (S life id : Nat) : Decidable (Live env S life id) := inferInstanceAs (Decidable (¬ _))

/-- No block that has not expired has an audio or video tag behind this time. -/
def Survives (env : Env) (S life : Nat) (disk : Tree) (dir : Path) (guid : Name) (mediaTs : Nat) : Prop :=
  ∀ id c, BlockAt disk dir guid id c → Live env S life id → ∀ x ∈ (blockTags c).flatMap stampOf, x ≤ mediaTs

section
variable {env : Env} {S life : Nat} {dir : Path} {guid : Name} {disk : Tree}

theorem BlockAt.onDisk {id : Nat} {c : List Byte} (h : BlockAt disk dir guid id c) : OnDisk disk dir guid id := by
  obtain ⟨x, hx⟩ := h
  exact ⟨x, c, Tree.mem_files_of_read hx⟩

theorem Found.blockAt {id : Nat} {c : List Byte} (h : Found env disk dir guid id c) : BlockAt disk dir guid id c := by
  obtain ⟨k, -, -, -, hc, -⟩ := h
  exact ⟨_, hc⟩

theorem Found.last {id : Nat} {c : List Byte} (h : Found env disk dir guid id c) {id' : Nat} (h' : OnDisk disk dir guid id') :
    id' ≤ id := by
  obtain ⟨k, -, -, -, -, hl⟩ := h
  exact hl id' h'

theorem Found.unique {id id' : Nat} {c c' : List Byte} (h : Found env disk dir guid id c) (h' : Found env disk dir guid id' c') :
    id = id' ∧ c = c' := by
  have hid : id = id' := Nat.le_antisymm (h'.last h.blockAt.onDisk) (h.last h'.blockAt.onDisk)
  subst hid
  obtain ⟨k, -, hn, -, hc, -⟩ := h
  obtain ⟨k', -, hn', -, hc', -⟩ := h'
  obtain rfl := hn.unique hn'
  exact ⟨rfl, Option.some.inj (hc.symm.trans hc')⟩

theorem mem_mediaTimes {c : List Byte} {x : Nat} : x ∈ mediaTimes c ↔ x ∈ (blockTags c).flatMap stampOf ∧ x ≠ 0 := by
  rw [mediaTimes, List.mem_filter, decide_eq_true_eq]

theorem Orderly.blockAt_unique {limit : Nat} (ho : Orderly dir guid limit disk) {id : Nat} {c c' : List Byte}
    (h : BlockAt disk dir guid id c) (h' : BlockAt disk dir guid id c') : c = c' := by
  obtain ⟨x, hx⟩ := h
  obtain ⟨x', hx'⟩ := h'
  have e := (ho.home (Tree.mem_files_of_read hx)).1
  have e' := (ho.home (Tree.mem_files_of_read hx')).1
  subst e
  subst e'
  exact Option.some.inj (hx.symm.trans hx')

/-- The last block has the last timestamp of all. -/
theorem TimesAscend.le_last (h : TimesAscend disk dir guid) {limit : Nat} (ho : Orderly dir guid limit disk) {id : Nat}
    {c : List Byte} (hf : Found env disk dir guid id c) {y : Nat} (hy : (mediaTimes c).getLast? = some y) {id' : Nat}
    {c' : List Byte} (hb : BlockAt disk dir guid id' c') {x : Nat} (hx : x ∈ mediaTimes c') : x ≤ y := by
  rcases Nat.lt_or_eq_of_le (hf.last hb.onDisk) with hlt | rfl
  · exact h.across _ _ _ _ hb hf.blockAt hlt x hx y (List.mem_of_getLast? hy)
  · obtain rfl := ho.blockAt_unique hf.blockAt hb
    have hp := h.inside _ _ hb
    obtain ⟨l, hl⟩ := List.getLast?_eq_some_iff.mp hy
    rw [hl] at hp hx
    rcases List.mem_append.mp hx with hx | hx
    · exact (List.pairwise_append.mp hp).2.2 x hx y (List.mem_singleton_self y)
    · exact Nat.le_of_eq (List.mem_singleton.mp hx)

/-- The media time that `Init` returns: read from the last block if that is
found and has not expired, and 0 otherwise. -/
theorem start_mediaTs (hc : Steady env) (hS : ScaleFits S) (ho : Orderly dir guid (idLimit (env.utc 0)) disk) {u : Uninit}
    {report fuel mediaTs : Nat} {w : World} (hw : start env fuel u dir guid S life report disk = .ret mediaTs w) :
    (∃ id c, Found env disk dir guid id c ∧ mediaTs = getLastTsInPiece c) ∨
      (mediaTs = 0 ∧ ∀ id c, Found env disk dir guid id c → ∀ id', OnDisk disk dir guid id' → ¬ Live env S life id') := by
  obtain ⟨ts, v, heq, hv, hcur⟩ := init_loaded u life report hS ho
  have hts : mediaTs = ts := by
    obtain ⟨_, x, hx, hp⟩ := Prog.ret_of_bind ((heq fuel).symm.trans hw)
    cases hp
    rfl
  rw [hts]
  rcases hcur with ⟨⟨h₀, -⟩, hnone⟩ | ⟨k, f, hk, hn, hgo, hf, hr, -⟩
  · refine .inr ⟨h₀, fun id c hfound id' hid' hlive => ?_⟩
    obtain ⟨k, hk, hn, hgo, hread, -⟩ := hfound
    exact queueIn_ne_nil hc ho hk hn (Tree.mem_files_of_read hread) hid' hlive (hnone k hk hn hgo)
  · obtain ⟨⟨c, hread, -, hp⟩, hmax⟩ := ho.last_block (idLimit_lt _) hk hn (queueIn_getLast hf)
    refine .inl ⟨f.id, c, ⟨k, hk, hn, hgo, hp ▸ hread, hmax⟩, ?_⟩
    rw [hr, recoveredTs, hread]

end

/-- On every disk that earlier runs can leave, each stopped at any point, whose
audio and video timestamps do not go back: `Init` returns, and the media time it
recovers is behind all blocks that have not expired exactly if none of them has
an audio or video tag with a timestamp, or the last block is in the newest
directory and has one. (The tags of the last block are laid out as in a regular
block.) -/
theorem media_time_survives {env : Env} {S : Nat} (hc : Steady env) (hS : ScaleFits S) {dir : Path} {guid : Name} {T : Nat}
    {disk : Tree} (hd : Left dir guid T disk) (hT : T ≤ env.utc 0) (u : Uninit) (life report : Nat)
    (hasc : TimesAscend disk dir guid) (hreg : ∀ id c, Found env disk dir guid id c → Regular c) :
    (Faultless env → ∃ n, ∀ fuel, n ≤ fuel → ∃ mediaTs w, start env fuel u dir guid S life report disk = .ret mediaTs w) ∧
    ∀ fuel mediaTs w, start env fuel u dir guid S life report disk = .ret mediaTs w →
      (Survives env S life disk dir guid mediaTs ↔
        (∀ id c, BlockAt disk dir guid id c → Live env S life id → mediaTimes c = []) ∨
          ∃ id c, Found env disk dir guid id c ∧ mediaTimes c ≠ []) := by
  have ho : Orderly dir guid (idLimit (env.utc 0)) disk := hd.orderly.mono (idLimit_mono hT)
  refine ⟨fun hf => start_returns hc hf hS u life report ho, fun fuel mediaTs w hw => ⟨fun hs => ?_, fun hr => ?_⟩⟩
  · -- a recovered time other than 0 is that of the last block
    apply or_iff_not_imp_left.mpr
    intro hn
    simp only [not_forall] at hn
    obtain ⟨id, c, hb, hlive, hne⟩ := hn
    obtain ⟨x, hx⟩ := List.exists_mem_of_ne_nil _ hne
    have hx' := mem_mediaTimes.mp hx
    have hle := hs id c hb hlive x hx'.1
    rcases start_mediaTs hc hS ho hw with ⟨id', c', hf, e⟩ | ⟨e, -⟩
    · refine ⟨id', c', hf, fun hnil => ?_⟩
      have hz : getLastTsInPiece c' = ((mediaTimes c').getLast?).getD 0 := getLastTsInPiece_eq (hreg _ _ hf)
      rw [hnil] at hz
      have hz : getLastTsInPiece c' = 0 := hz
      omega
    · omega
  · intro id c hb hlive x hx
    by_cases h₀ : x = 0
    · omega
    have hx : x ∈ mediaTimes c := mem_mediaTimes.mpr ⟨hx, h₀⟩
    rcases hr with hnone | ⟨id', c', hf, hne⟩
    · rw [hnone id c hb hlive] at hx
      cases hx
    · rcases start_mediaTs hc hS ho hw with ⟨id'', c'', hf', e⟩ | ⟨-, hdead⟩
      · obtain ⟨rfl, rfl⟩ := hf.unique hf'
        have hlast : (mediaTimes c').getLast? = some ((mediaTimes c').getLast hne) := List.getLast?_eq_getLast_of_ne_nil hne
        have hz : getLastTsInPiece c' = ((mediaTimes c').getLast?).getD 0 := getLastTsInPiece_eq (hreg _ _ hf)
        rw [e, hz, hlast]
        exact hasc.le_last ho hf hlast hb hx
      · exact absurd hlive (hdead id' c' hf id hb.onDisk)

/-- The clock goes from 1000 to 1002 behind the first block. -/
def twoSeconds (n : Nat) : Nat := if n < 4 then 1000 else 1002

theorem steady_twoSeconds : Steady (quiet twoSeconds) := by
  refine ⟨fun {i j} hij => ?_, fun i => ?_⟩
  · show twoSeconds i ≤ twoSeconds j
    unfold twoSeconds
    split_ifs <;> omega
  · show twoSeconds i < 2 ^ 31
    unfold twoSeconds
    split_ifs <;> decide

/-- A run on an empty disk that writes a block with a video tag at 1000 ms; then
`events` follow. -/
def onePiece (events : List WriterEvent) : Option World :=
  (start (quiet twoSeconds) 1 zeroed [] ['g'] 1 100 60 ⟨[], []⟩).andThen fun _ w =>
    runEvents (writerStep (quiet twoSeconds)) w
      ([.msg 2 (.writePiece true [flvHeader] 0 0),
        .msg 2 (.writePiece false [[9, 0, 0, 2, 0, 3, 0xe8, 0, 0, 0, 0], [0x27, 1, 0, 0, 0, 13]] 0 1000)] ++ events)

theorem left_onePiece {events : List WriterEvent} {t : World} (h : onePiece events = some t) {d : Tree} (hd : d ∈ t.fs.history) :
    Left [] ['g'] (t.now (quiet twoSeconds)) d := by
  refine .stopped (.unused ⟨fun _ h => (by cases h), fun _ h => (by cases h)⟩) steady_twoSeconds
    ⟨by decide, by decide⟩ (fun i => ?_) (Nat.zero_le _) (.of_runEvents h) hd
  show twoSeconds i + 1 < 2 ^ 31
  unfold twoSeconds
  split_ifs <;> decide

/-- The directories, and of each file its timestamps and whether it is regular. -/
structure Listing where
  dirs : List Path
  files : List (Path × List Nat × Bool)
  deriving DecidableEq

def listing (d : Tree) : Listing := ⟨d.dirs, d.files.map fun f => (f.1, mediaTimes f.2, decide (Regular f.2))⟩

theorem BlockAt.listed {disk : Tree} {dir : Path} {guid : Name} {l : Listing} (hl : listing disk = l) {id : Nat} {c : List Byte}
    (h : BlockAt disk dir guid id c) : ∃ x, (dir ++ [x, guid, blockName id], mediaTimes c, decide (Regular c)) ∈ l.files := by
  obtain ⟨x, hx⟩ := h
  refine ⟨x, ?_⟩
  rw [← hl]
  exact List.mem_map.mpr ⟨_, Tree.mem_files_of_read hx, rfl⟩

theorem read_of_listed {disk : Tree} {l : Listing} (hl : listing disk = l) {e : Path × List Nat × Bool} (he : e ∈ l.files) :
    ∃ c, disk.read e.1 = some c := by
  rw [← hl] at he
  obtain ⟨⟨p, c⟩, hf, rfl⟩ := List.mem_map.mp he
  exact Tree.read_of_mem hf

/-- The run is stopped with the block of the video tag as its last. -/
theorem media_time_survives_onePiece :
    ∃ disk mediaTs w, Left [] ['g'] 1000 disk ∧
      start (quiet fun _ => 1002) 6 zeroed [] ['g'] 1 100 60 disk = .ret mediaTs w ∧
      mediaTs = 1000 ∧ Survives (quiet fun _ => 1002) 1 100 disk [] ['g'] mediaTs := by
  have h : ((onePiece []).bind fun t => t.fs.history.getLast?.bind fun d =>
      (start (quiet fun _ => 1002) 6 zeroed [] ['g'] 1 100 60 d).andThen fun mediaTs _ =>
        some (t.now (quiet twoSeconds), listing d, mediaTs)) =
      some (1000, ⟨[[decimal 1], [decimal 1, ['g']]], [([decimal 1, ['g'], blockName 1000], [1000], true)]⟩, 1000) := by
    decide +kernel
  obtain ⟨t, ht, h⟩ := Option.bind_eq_some_iff.mp h
  obtain ⟨disk, hd, h⟩ := Option.bind_eq_some_iff.mp h
  obtain ⟨mediaTs, w, hw, h⟩ := Res.andThen_eq_some h
  simp only [Option.some.injEq, Prod.mk.injEq] at h
  obtain ⟨hnow, hlist, hts⟩ := h
  have hdirs : disk.dirs = [[decimal 1], [decimal 1, ['g']]] := congrArg Listing.dirs hlist
  have hleft := left_onePiece ht (List.mem_of_getLast? hd)
  rw [hnow] at hleft
  have hblock : ∀ {id c}, BlockAt disk [] ['g'] id c → id = 1000 ∧ mediaTimes c = [1000] ∧ Regular c := fun hb => by
    obtain ⟨x, hx⟩ := hb.listed hlist
    simp only [List.nil_append, List.mem_singleton, Prod.mk.injEq, List.cons.injEq, and_true, true_and, decide_eq_true_eq] at hx
    exact ⟨blockName_inj hx.1.2, hx.2⟩
  have hnew : Newest disk [] ['g'] 1 := by
    refine ⟨by rw [hdirs]; simp, fun k hk => ?_⟩
    rw [hdirs] at hk
    simp only [List.nil_append, List.mem_cons, List.cons.injEq, List.not_mem_nil, or_false, and_true, and_false, false_or,
      reduceCtorEq] at hk
    exact Nat.le_of_eq (decimal_inj hk)
  obtain ⟨c, hc⟩ := read_of_listed hlist (List.mem_singleton_self _)
  have hlast : ∀ id', OnDisk disk [] ['g'] id' → id' ≤ 1000 := fun id' ⟨x, c', hf⟩ => by
    obtain ⟨c'', hf⟩ := Tree.read_of_mem hf
    exact Nat.le_of_eq (hblock ⟨x, hf⟩).1
  have hfound : Found (quiet fun _ => 1002) disk [] ['g'] 1000 c := ⟨1, by decide, hnew, fun _ _ => rfl, hc, hlast⟩
  have hasc : TimesAscend disk [] ['g'] := by
    refine ⟨fun id c hb => ?_, fun id c id' c' hb hb' hlt => ?_⟩
    · rw [(hblock hb).2.1]
      exact List.pairwise_singleton _ _
    · rw [(hblock hb).1, (hblock hb').1] at hlt
      exact absurd hlt (Nat.lt_irrefl _)
  refine ⟨disk, mediaTs, w, hleft, hw, hts, ?_⟩
  refine ((media_time_survives (steady_const (by decide)) ⟨by decide, by decide⟩ hleft (by decide) zeroed 100 60 hasc
    fun id c hf => (hblock hf.blockAt).2.2).2 6 mediaTs w hw).mpr (.inr ⟨1000, c, hfound, ?_⟩)
  rw [(hblock hfound.blockAt).2.1]
  decide

/-- Off air the run writes a block without a timestamp, and is stopped: the next
run begins at 0, behind the video tag at 1000 ms. -/
theorem media_time_lost :
    ∃ disk mediaTs w, Left [] ['g'] 1002 disk ∧ TimesAscend disk [] ['g'] ∧
      (∀ id c, BlockAt disk [] ['g'] id c → Regular c ∧ ∀ x ∈ mediaTimes c, x < 2 ^ 31) ∧
      start (quiet fun _ => 1002) 6 zeroed [] ['g'] 1 100 60 disk = .ret mediaTs w ∧
      mediaTs = 0 ∧ ¬ Survives (quiet fun _ => 1002) 1 100 disk [] ['g'] mediaTs := by
  have h : ((onePiece [.msg 3 .readerError]).bind fun t => t.fs.history.getLast?.bind fun d =>
      (start (quiet fun _ => 1002) 6 zeroed [] ['g'] 1 100 60 d).andThen fun mediaTs _ =>
        some (t.now (quiet twoSeconds), listing d, mediaTs)) =
      some (1002, ⟨[[decimal 1], [decimal 1, ['g']]],
        [([decimal 1, ['g'], blockName 1001], [], true), ([decimal 1, ['g'], blockName 1000], [1000], true)]⟩, 0) := by
    decide +kernel
  obtain ⟨t, ht, h⟩ := Option.bind_eq_some_iff.mp h
  obtain ⟨disk, hd, h⟩ := Option.bind_eq_some_iff.mp h
  obtain ⟨mediaTs, w, hw, h⟩ := Res.andThen_eq_some h
  simp only [Option.some.injEq, Prod.mk.injEq] at h
  obtain ⟨hnow, hlist, hts⟩ := h
  have hleft := left_onePiece ht (List.mem_of_getLast? hd)
  rw [hnow] at hleft
  have hblock : ∀ {id c}, BlockAt disk [] ['g'] id c →
      (id = 1001 ∧ mediaTimes c = [] ∨ id = 1000 ∧ mediaTimes c = [1000]) ∧ Regular c := fun hb => by
    obtain ⟨x, hx⟩ := hb.listed hlist
    simp only [List.nil_append, List.mem_cons, List.not_mem_nil, or_false, Prod.mk.injEq, List.cons.injEq, and_true, true_and,
      decide_eq_true_eq] at hx
    rcases hx with hx | hx
    · exact ⟨.inl ⟨blockName_inj hx.1.2, hx.2.1⟩, hx.2.2⟩
    · exact ⟨.inr ⟨blockName_inj hx.1.2, hx.2.1⟩, hx.2.2⟩
  refine ⟨disk, mediaTs, w, hleft, ⟨fun id c hb => ?_, fun id c id' c' hb hb' hlt x hx y hy => ?_⟩, fun id c hb => ⟨(hblock hb).2, ?_⟩,
    hw, hts, fun hs => ?_⟩
  · rcases (hblock hb).1 with ⟨-, e⟩ | ⟨-, e⟩
    · rw [e]; exact List.Pairwise.nil
    · rw [e]; exact List.pairwise_singleton _ _
  · rcases (hblock hb').1 with ⟨-, e⟩ | ⟨e, -⟩
    · rw [e] at hy
      cases hy
    · rcases (hblock hb).1 with ⟨e', -⟩ | ⟨e', -⟩
      · omega
      · omega
  · rcases (hblock hb).1 with ⟨-, e⟩ | ⟨-, e⟩
    · rw [e]; exact fun x hx => by cases hx
    · rw [e]
      decide
  · obtain ⟨c, hc⟩ := read_of_listed hlist (List.mem_cons_of_mem _ (List.mem_singleton_self _))
    have hb : BlockAt disk [] ['g'] 1000 c := ⟨_, hc⟩
    have ht : mediaTimes c = [1000] := ((hblock hb).1.resolve_left fun h => absurd h.1 (by decide)).2
    have hx : 1000 ∈ mediaTimes c := by rw [ht]; exact List.mem_singleton_self _
    have hle := hs 1000 c hb (by decide) 1000 (mem_mediaTimes.mp hx).1
    rw [hts] at hle
    exact absurd hle (by decide)

end XH.Proof.Cutter
