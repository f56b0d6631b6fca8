import Mathlib.Data.Fintype.Basic
import Xhome.Framework.Reach
import Xhome.Impl.Vod.Segment

/-!
# Requests for segments at the same time

Requests for one segment use the same two files, and requests for one channel
make the same directory. `clash` says when a step of one request takes away
what another has just found or made; `requests_undisturbed`: in a run without
such a step every request returns what it returns alone.
-/

namespace XH.Proof.Vod

open XH.Impl.Vod

/-- What a request returns alone: the output of the transcoder. -/
def output (v : Server) (s : Segment) : List Byte :=
  match v.method with
  | .pptransfer => v.pptransfer (v.curl s)
  | .ffmpeg => v.ffmpeg (v.curl s)

/-- What a request relies on before its next step. -/
def Ready (v : Server) (s : Segment) (d : Ramdisk) : Point → Prop
  | .pathExists => True
  | .mkdir => d.dirs s.channelId = false
  | .download => v.method = .pptransfer
  | .transcode => v.method = .pptransfer → d.files (.flv s) = some (v.curl s)
  | .read => d.files (.ts s) = some (output v s)
  | .removeFlv stream => stream = output v s
  | .remove stream => stream = output v s
  | .returned stream => stream = output v s
  | .raised => False

section

variable {v : Server} {s s' : Segment} {d : Ramdisk} {p q : Point}

theorem ready_afterDir (v : Server) (s : Segment) (d : Ramdisk) : Ready v s d v.afterDir := by
  rw [Server.afterDir]
  cases hm : v.method with
  | pptransfer => exact hm
  | ffmpeg => exact fun h => by rw [hm] at h; cases h

/-- The transcoder writes the output of its segment. -/
theorem transcode_eq (h : Ready v s d .transcode) : v.transcode s d = d.write (.ts s) (output v s) := by
  rw [Server.transcode, output]
  cases hm : v.method with
  | pptransfer => rw [h hm]
  | ffmpeg => rfl

/-- A request's own step. -/
theorem Ready.step (h : Ready v s d p) : Ready v s (workerStep v s d p).1 (workerStep v s d p).2 := by
  cases p with
  | pathExists =>
    rw [workerStep]
    split
    · exact ready_afterDir v s d
    · rename_i hd
      exact Bool.eq_false_iff.mpr hd
  | mkdir =>
    rw [workerStep, if_neg (by rw [show d.dirs s.channelId = false from h]; exact Bool.false_ne_true)]
    exact ready_afterDir v s _
  | download => exact fun _ => Function.update_self ..
  | transcode =>
    rw [workerStep, transcode_eq h]
    exact Function.update_self ..
  | read =>
    have hs : (d.files (.ts s)).getD [] = output v s := by rw [show d.files (.ts s) = _ from h, Option.getD_some]
    rw [workerStep]
    cases v.method <;> exact hs
  | removeFlv stream => exact h
  | remove stream => exact h
  | returned stream => exact h
  | raised => exact h

/-- A step of a request for `s` at `p` takes away what one for `s'` at `q`
relies on: the directory it found missing is made, or a file it has written is
removed before it was used. -/
def clash (s : Segment) (p : Point) (s' : Segment) (q : Point) : Bool :=
  match p, q with
  | .mkdir, .mkdir => s.channelId = s'.channelId
  | .removeFlv _, .transcode => s = s'
  | .remove _, .read => s = s'
  | _, _ => false

/-- A file that a request is about to use has what it relies on, if it is
written at all. -/
theorem Ready.update (h : Ready v s d p) {f : RamdiskFile} {x : Option (List Byte)}
    (ht : p = .transcode → f = .flv s → x = some (v.curl s)) (hr : p = .read → f = .ts s → x = some (output v s)) :
    Ready v s { d with files := Function.update d.files f x } p := by
  cases p with
  | transcode =>
    intro hm
    show Function.update d.files f x (.flv s) = _
    rw [Function.update_apply]
    split
    · rename_i e
      exact ht rfl e.symm
    · exact h hm
  | read =>
    show Function.update d.files f x (.ts s) = _
    rw [Function.update_apply]
    split
    · rename_i e
      exact hr rfl e.symm
    · exact h
  | _ => exact h

/-- Another request's step. -/
theorem Ready.other (h : Ready v s d p) (h' : Ready v s' d q) (hc : clash s p s' q = false) :
    Ready v s' (workerStep v s d p).1 q := by
  cases p with
  | mkdir =>
    have hd : ¬ d.dirs s.channelId = true := by rw [show d.dirs s.channelId = false from h]; exact Bool.false_ne_true
    rw [workerStep, if_neg hd]
    cases q with
    | mkdir =>
      have hne : s'.channelId ≠ s.channelId := fun e => of_decide_eq_false hc e.symm
      show Function.update d.dirs s.channelId true s'.channelId = false
      rw [Function.update_of_ne hne]
      exact h'
    | _ => exact h'
  | download => exact h'.update (fun _ e => by cases e; rfl) (fun _ e => by cases e)
  | transcode =>
    rw [workerStep, transcode_eq h]
    exact h'.update (fun _ e => by cases e) (fun _ e => by cases e; rfl)
  | removeFlv stream =>
    refine h'.update (fun hq e => ?_) (fun _ e => by cases e)
    subst hq
    exact absurd (RamdiskFile.flv.inj e) (of_decide_eq_false hc)
  | remove stream =>
    refine h'.update (fun _ e => by cases e) (fun hq e => ?_)
    subst hq
    exact absurd (RamdiskFile.ts.inj e) (of_decide_eq_false hc)
  | _ => exact h'

/-- How many steps a request has before it at most. -/
def left : Point → Nat
  | .pathExists => 7
  | .mkdir => 6
  | .download => 5
  | .transcode => 4
  | .read => 3
  | .removeFlv _ => 2
  | .remove _ => 1
  | .returned _ | .raised => 0

theorem left_step (v : Server) (s : Segment) (d : Ramdisk) (p : Point) : left (workerStep v s d p).2 ≤ left p - 1 := by
  have hd : left v.afterDir ≤ 5 := by rw [Server.afterDir]; cases v.method <;> decide
  cases p with
  | pathExists =>
    rw [workerStep]
    split
    · exact Nat.le_succ_of_le hd
    · exact Nat.le_refl 6
  | mkdir =>
    rw [workerStep]
    split
    · exact Nat.zero_le _
    · exact hd
  | read =>
    rw [workerStep]
    cases v.method
    · exact Nat.le_refl 2
    · exact Nat.le_succ 1
  | _ => exact Nat.le_refl _

theorem Ready.alone (h : Ready v s d p) {fuel : Nat} (hl : left p ≤ fuel) :
    alone v s fuel d p = .returned (output v s) := by
  induction fuel generalizing d p with
  | zero =>
    cases p with
    | returned stream => rw [Impl.Vod.alone, show stream = _ from h]
    | raised => exact h.elim
    | _ => cases hl
  | succ fuel ih =>
    have hs := left_step v s d p
    rw [Impl.Vod.alone]
    exact ih h.step (by omega)

/-- Alone a request returns the output of the transcoder, whatever is on the
disk. -/
theorem alone_eq (v : Server) (s : Segment) (d : Ramdisk) : alone v s 7 d .pathExists = .returned (output v s) :=
  Ready.alone (show Ready v s d .pathExists from trivial) (Nat.le_refl 7)

end

/-! ## Runs -/

section

variable {ι : Type} [DecidableEq ι] {v : Server} {segment : ι → Segment} {r t : Requests ι} {i : ι}

/-- No other request is about to use what the next step of `i` takes away. -/
def Undisturbing (segment : ι → Segment) (r : Requests ι) (i : ι) : Prop :=
  ∀ j, j ≠ i → clash (segment i) (r.points i) (segment j) (r.points j) = false

instance [Fintype ι] (r : Requests ι) (i : ι) : Decidable (Undisturbing segment r i) :=
  inferInstanceAs (Decidable (∀ j, j ≠ i → clash (segment i) (r.points i) (segment j) (r.points j) = false))

/-- Every request finds what it relies on. -/
def AllReady (v : Server) (segment : ι → Segment) (r : Requests ι) : Prop :=
  ∀ i, Ready v (segment i) r.disk (r.points i)

theorem requestStep_some (hs : requestStep v segment r i = some t) :
    t = ⟨(workerStep v (segment i) r.disk (r.points i)).1,
      Function.update r.points i (workerStep v (segment i) r.disk (r.points i)).2⟩ := by
  unfold requestStep at hs
  split at hs
  · cases hs
  · exact (Option.some.inj hs).symm

theorem AllReady.step (h : AllReady v segment r) (hu : Undisturbing segment r i)
    (hs : requestStep v segment r i = some t) : AllReady v segment t := by
  rw [requestStep_some hs]
  intro j
  dsimp only
  rcases eq_or_ne j i with rfl | hj
  · rw [Function.update_self]
    exact (h j).step
  · rw [Function.update_of_ne hj]
    exact (h i).other (h j) (hu j hj)

/-- In a run in which no step takes away what another request relies on, each
request that has come to its end has returned the stream it returns alone, from
whatever disk. -/
theorem requests_undisturbed {disk : Ramdisk} (hr : Reach (requestStep v segment) (Undisturbing segment)
    ⟨disk, fun _ => .pathExists⟩ r) (hi : requestStep v segment r i = none) (disk' : Ramdisk) :
    r.points i = alone v (segment i) 7 disk' .pathExists := by
  have h₀ : AllReady v segment ⟨disk, fun _ => .pathExists⟩ := fun _ => trivial
  have h : AllReady v segment r := hr.invariant _ h₀ fun _ _ _ h hu hs => h.step hu hs
  have hready := h i
  rw [alone_eq]
  unfold requestStep at hi
  split at hi
  · rename_i hf
    cases hp : r.points i with
    | returned stream => rw [hp] at hready; rw [show stream = _ from hready]
    | raised => rw [hp] at hready; exact hready.elim
    | _ => rw [hp] at hf; cases hf
  · cases hi

end

/-! ## Two viewers -/

/-- A server whose transcoder keeps the bytes. -/
def copying : Server := ⟨.pptransfer, fun _ => List.replicate 1401 0x46, [], id, id⟩

/-- Two requests for one segment: the first removes the output before the
second has read it. -/
theorem output_lost :
    ∃ r, runEvents (requestStep copying fun _ : Bool => ⟨"a", "1381283175"⟩)
        ⟨⟨fun _ => true, fun _ => none⟩, fun _ => .pathExists⟩
        [false, false, false, true, true, true, false, false, false, true, true, true] = some r ∧
      r.points true = .returned [] ∧
      alone copying ⟨"a", "1381283175"⟩ 7 ⟨fun _ => true, fun _ => none⟩ .pathExists = .returned [0x46] := by
  refine ⟨_, rfl, ?_, ?_⟩ <;> decide +kernel

/-- Two requests for different segments of a channel. -/
def apart (b : Bool) : Segment := ⟨"a", if b then "1381283175" else "1381283180"⟩

theorem segments_apart :
    ∃ r, runIf (requestStep copying apart) (Undisturbing apart) ⟨⟨fun _ => true, fun _ => none⟩, fun _ => .pathExists⟩
        [false, true, false, true, false, true, false, true, false, true, false, true] = some r ∧
      r.points true = alone copying (apart true) 7 ⟨fun _ => false, fun _ => none⟩ .pathExists := by
  have h : ((runIf (requestStep copying apart) (Undisturbing apart)
      ⟨⟨fun _ => true, fun _ => none⟩, fun _ => .pathExists⟩
      [false, true, false, true, false, true, false, true, false, true, false, true]).any
        fun r => (requestStep copying apart r true).isNone) = true := by decide +kernel
  cases hr : runIf (requestStep copying apart) (Undisturbing apart)
      ⟨⟨fun _ => true, fun _ => none⟩, fun _ => .pathExists⟩
      [false, true, false, true, false, true, false, true, false, true, false, true] with
  | none => rw [hr] at h; cases h
  | some r =>
    rw [hr] at h
    exact ⟨r, rfl, requests_undisturbed (.of_runIf hr) (Option.isNone_iff_eq_none.mp h) _⟩

end XH.Proof.Vod
