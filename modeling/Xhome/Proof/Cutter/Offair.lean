import Xhome.Proof.Cutter.Timeline

/-!
# Off air

The handlers that fill slots while the reader is off air, `HandleReaderError`
and the clock alarm, return (`fillsOffair_ret`), and then no elapsed slot is
without its block (`offair_complete`). With a `piece_scale_` whose cast is
negative, special blocks are written ahead of the clock (`special_ahead`).
-/

namespace XH.Proof.Cutter

open XH.Impl.Cutter

section
variable {env : Env} {S : Nat} {s t : World}

theorem writeOneSpecialPiece_ret (hf : Faultless env) (fuel specialType : Nat) (s : World) :
    ∃ t, writeOneSpecialPiece env (fuel + 1) specialType s = .ret () t := by
  by_cases h : specialType ≤ 1
  · obtain ⟨t, ht, -⟩ := writeBlock_ret env fuel (.special specialType) (specialData s.w specialType)
      (u32 (Piece.size (specialData s.w specialType))) (env.removedSize s.fs.attempts)
      (not_fails hf (specialStart specialType s))
    exact ⟨t, by rw [writeOneSpecialPiece_eq env _ h]; exact ht⟩
  · exact ⟨s, by rw [writeOneSpecialPiece, if_neg h]; rfl⟩

/-- The fill loop ends: every round brings the next slot closer to the present. -/
theorem fillLoop_ret (hc : Steady env) (hf : Faultless env) (hS : ScaleFits S) :
    ∀ (fuel : Nat) {s : World}, Timeline env S first s → s.now env - s.w.currentPieceId < fuel →
      ∃ t, fillLoop env (s.now env) fuel s = .ret () t := by
  intro fuel
  induction fuel with
  | zero =>
    intro s _ hn
    omega
  | succ fuel ih =>
    intro s h hn
    rw [fillLoop, Prog.bind_ret (Prog.get_apply s)]
    split
    · rename_i hb
      obtain ⟨t, ht⟩ := writeOneSpecialPiece_ret hf fuel 0 s
      have he := (h.behind_iff hc hS).mp hb.2
      obtain ⟨hp, hi, hnow⟩ := (writeOneSpecialPiece_timeline hc hS h (fuel + 1) (Nat.zero_le 1) hb.2).ret ht
      have hS₀ := hS.1
      have hless : t.now env - t.w.currentPieceId < fuel := by
        rw [hi, hnow]
        omega
      rw [Prog.bind_ret ht, ← hnow]
      exact ih hp.toTimeline hless
    · exact ⟨s, rfl⟩

/-- Removing files has no loop that could be running. -/
theorem dropExpired_ret (env : Env) (expired : PieceFileInfo → Bool) :
    ∀ (l : List PieceFileInfo) (s : World), WP (dropExpired env expired l) s (fun _ _ => True) (fun _ => False)
  | [], _ => .pure trivial
  | f :: rest, s => by
    rw [dropExpired]
    split
    · refine .seq (P := fun _ _ => True) (.bind (.get (.bind (.modify ?_)))) fun _ t _ =>
        .bind (.modify (dropExpired_ret env expired rest _))
      split
      · exact .pure trivial
      · exact .bind (.modify (.pure trivial))
    · exact .pure trivial

/-- The handlers that fill while the reader is off air. -/
inductive FillsOffair (s : World) : (Nat → WriterEvent) → Prop
  | readerError : FillsOffair s (.msg · .readerError)
  | alarm : s.w.readerOk = false → FillsOffair s .alarm

/-- They return. -/
theorem fillsOffair_ret (hc : Steady env) (hf : Faultless env) (hS : ScaleFits S) (h : Timeline env S first s)
    {event : Nat → WriterEvent} (he : FillsOffair s event) :
    ∃ n, ∀ fuel, n ≤ fuel → ∃ t, writerProg env (event fuel) s = .ret () t := by
  cases he with
  | readerError =>
    have ht : Timeline env S first (afterError s) := h.of_eq rfl rfl rfl (hc.now_ticked s)
    exact ⟨(afterError s).now env - (afterError s).w.currentPieceId + 1, fun fuel hle =>
      fillLoop_ret hc hf hS fuel ht hle⟩
  | alarm hr =>
    have hu : Timeline env S first (ticked (dirsRemoved env s)) :=
      (h.of_eq rfl rfl rfl (hc.now_ticked s) : Timeline env S first (dirsRemoved env s)).of_eq rfl rfl rfl (hc.now_ticked _)
    have hd : WP (removeExpired env (env.utc (dirsRemoved env s).reads)) (ticked (dirsRemoved env s)) (fun _ _ => True)
        (fun _ => False) := .bind (.get (dropExpired_ret env _ _ _))
    obtain ⟨_, t, ht, -⟩ := hd.returns
    obtain ⟨htl, -, hn⟩ := ((timeline_invariant hc hS).removeExpired _ hu).ret ht
    refine ⟨t.now env - t.w.currentPieceId + 1, fun fuel hle => ?_⟩
    have hfill : ∃ v, fillOffair env (env.utc (dirsRemoved env s).reads) fuel t = .ret () v := by
      obtain ⟨v, hv⟩ := fillLoop_ret hc hf hS fuel htl hle
      have hnow : t.now env = env.utc (dirsRemoved env s).reads := hn
      rw [hnow] at hv
      rw [fillOffair, Prog.bind_ret (Prog.get_apply t)]
      split
      · exact ⟨t, rfl⟩
      · exact ⟨v, hv⟩
    obtain ⟨v, hv⟩ := hfill
    obtain ⟨_, x, hx, -⟩ := (countReport_inert (J := fun _ => False) v).returns
    refine ⟨x, ?_⟩
    show onClockAlarm env fuel s = _
    rw [onClockAlarm_eq, baseOnClockAlarm, Prog.bind_ret (getUTC_apply env _), Prog.bind_ret ht, Prog.bind_ret hv]
    exact hx

/-- Behind a handler that fills, no slot is missing. -/
theorem fillsOffair_spec (hc : Steady env) (hS : ScaleFits S) (h : Timeline env S first s)
    {event : Nat → WriterEvent} (he : FillsOffair s event) {fuel : Nat} (ht : writerProg env (event fuel) s = .ret () t) :
    Timeline env S first t ∧ (t.w.currentPieceId ≠ 0 → t.now env < t.w.currentPieceId + S) := by
  have hI : Invariant env (Timeline env S first) (Passed env S first) (Timed env S first) := timeline_invariant hc hS
  have hspec : Timeline env S first t ∧ ¬ (t.w.currentPieceId ≠ 0 ∧ t.w.slotsBehind (t.now env) > 0) := by
    cases he with
    | readerError => exact (hI.handleReaderError fuel h).ret ht
    | alarm hr =>
      have ha := (hI.onClockAlarm fuel h).ret ht
      exact ⟨ha.1, ha.2 hr⟩
  refine ⟨hspec.1, fun h₀ => ?_⟩
  have hn := mt (hspec.1.behind_iff hc hS).mpr fun hb => hspec.2 ⟨h₀, hb⟩
  omega

end

/-- In every run, a clock alarm with the reader off air and a reader error
return, and then the next slot has not fully elapsed, every slot from the first
block up to the last elapsed one has one block, and every special block was
written for a slot that had fully elapsed. -/
theorem offair_complete {env : Env} {S : Nat} (hc : Steady env) (hf : Faultless env) (hS : ScaleFits S) {fuel : Nat}
    {u : Uninit} {dir : Path} {guid : Name} {life report : Nat} {disk : Tree} {limit : Nat}
    (hd : BlocksUpTo disk dir guid limit) (hl : limit + S ≤ env.utc 0 + 2 ^ 31) {mediaTs : Nat} {w s : World}
    (hw : start env fuel u dir guid S life report disk = .ret mediaTs w)
    (hs : Reach (writerStep env) (fun _ _ => True) w s) {event : Nat → WriterEvent} (he : FillsOffair s event) :
    (∃ n, ∀ rounds, n ≤ rounds → ∃ t, writerProg env (event rounds) s = .ret () t) ∧
    ∀ rounds t, writerProg env (event rounds) s = .ret () t →
      (t.w.currentPieceId ≠ 0 → (t.now env : Int) - t.w.currentPieceId < S) ∧
      (∀ b₀, t.fs.written.head? = some b₀ → ∀ id, b₀.id ≤ id → S ∣ id → id + S ≤ t.now env →
        (t.fs.written.map (·.id)).count id = 1) ∧
      ∀ b ∈ t.fs.written, isSpecial b.kind = true → b.id + S ≤ b.now := by
  have hsT : Timeline env S none s := (timeline_invariant hc hS).reach
    ((start_timeline hc hS fuel u dir guid life report hd hl).ret hw).1 hs
  refine ⟨fillsOffair_ret hc hf hS hsT he, fun rounds t ht => ?_⟩
  obtain ⟨htT, hnow⟩ := fillsOffair_spec hc hS hsT he ht
  refine ⟨fun h₀ => by have := hnow h₀; omega, fun b₀ hb₀ id hle hdvd hid => ?_, fun b hb => (htT.dated b hb).elapsed⟩
  have hfirst : (t.fs.written.map (·.id)).head? = some b₀.id := by rw [List.head?_map, hb₀]; rfl
  have hmem : b₀ ∈ t.fs.written := List.mem_of_head? hb₀
  have hcur : t.w.currentPieceId ≠ 0 := fun h₀ => by
    rw [htT.written_eq_nil hS h₀] at hmem
    cases hmem
  have := hnow hcur
  have hhead : (t.fs.written.map (·.id) ++ [t.w.currentPieceId]).head? = some b₀.id := by
    rw [List.head?_append, hfirst]; rfl
  exact List.count_eq_one_of_mem (htT.next.left.nodup hS.1)
    (htT.next.mem_of_lt hS.1 hhead hle (Nat.dvd_sub hdvd (htT.dated b₀ hmem).multiple) (by omega))

theorem offair_complete_mixed :
    ∃ mediaTs w s t, start (quiet counting) 1 zeroed [] ['g'] 2 100 60 ⟨[], []⟩ = .ret mediaTs w ∧
      Reach (writerStep (quiet counting)) (fun _ _ => True) w s ∧ FillsOffair s .alarm ∧
      writerProg (quiet counting) (.alarm 9) s = .ret () t ∧ t.w.currentPieceId = 1010 ∧
      (t.now (quiet counting) : Int) - t.w.currentPieceId < 2 := by
  have h : ((start (quiet counting) 1 zeroed [] ['g'] 2 100 60 ⟨[], []⟩).andThen fun _ w =>
      (runEvents (writerStep (quiet counting)) w mixedEvents).bind fun s =>
        (writerProg (quiet counting) (.alarm 9) s).andThen fun _ t => some (s.w.readerOk, t.w.currentPieceId)) =
      some (false, 1010) := by
    decide +kernel
  obtain ⟨mediaTs, w, hw, h⟩ := Res.andThen_eq_some h
  obtain ⟨s, hs, h⟩ := Option.bind_eq_some_iff.mp h
  obtain ⟨_, t, ht, h⟩ := Res.andThen_eq_some h
  simp only [Option.some.injEq, Prod.mk.injEq] at h
  have hd : BlocksUpTo ⟨[], []⟩ [] ['g'] 0 := fun _ _ _ h => by cases h
  have ho := (offair_complete steady_counting (fun _ => rfl) ⟨by decide, by decide⟩ hd (by decide) hw (.of_runIf hs) (.alarm h.1)).2 9 t ht
  exact ⟨mediaTs, w, s, t, hw, .of_runIf hs, .alarm h.1, ht, h.2, ho.1 (by rw [h.2]; decide)⟩

/-- With the interval -1073741823 `cut_scale_` is 1000 and `piece_scale_` is `3 * 2^30 + 1`.
Both casts are negative: at a reader error a special block is written for a slot that
has not begun. -/
theorem special_ahead :
    ∃ t, Shows (quiet fun _ => 1700000000)
        (start (quiet fun _ => 1700000000) 1 zeroed [] ['g'] (3 * 2 ^ 30 + 1) 100 60 ⟨[], []⟩) t ∧
      ∃ b ∈ t.fs.written, isSpecial b.kind = true ∧ b.id = 3 * 2 ^ 30 + 1 ∧ b.now = 1700000000 ∧
        ¬ b.id + (3 * 2 ^ 30 + 1) ≤ b.now := by
  have h : ((start (quiet fun _ => 1700000000) 1 zeroed [] ['g'] (3 * 2 ^ 30 + 1) 100 60 ⟨[], []⟩).andThen fun _ w =>
      runEvents (writerStep (quiet fun _ => 1700000000)) w
        [.msg 3 (.writePiece true [flvHeader] 0 0), .msg 3 (.writePiece false [] 0 0), .msg 3 .readerError]).map
          (fun t => t.fs.written.map fun b => (isSpecial b.kind, b.id, b.now)) =
        some [(false, 0, 1700000000), (true, 3 * 2 ^ 30 + 1, 1700000000)] := by
    decide +kernel
  obtain ⟨t, ht, h⟩ := Option.map_eq_some_iff.mp h
  have hm : (true, 3 * 2 ^ 30 + 1, 1700000000) ∈ t.fs.written.map fun b => (isSpecial b.kind, b.id, b.now) := by
    rw [h]; exact List.mem_cons_of_mem _ List.mem_cons_self
  obtain ⟨b, hb, e⟩ := List.mem_map.mp hm
  simp only [Prod.mk.injEq] at e
  exact ⟨t, .of_runEvents ht, b, hb, e.1, e.2.1, e.2.2, by rw [e.2.1, e.2.2]; decide⟩

end XH.Proof.Cutter
