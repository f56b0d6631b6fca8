import Mathlib.Data.List.Induction
import Mathlib.Tactic.NormNum.GCD
import Xhome.Impl.Camera.DataTransfer
import Xhome.Proof.Camera.Layout

/-!
# What the camera records

`fwrite` is told that the elements have the size of a pointer, so it writes four
times the bytes of a frame: the frame, and what lies behind it (`recorded`).
`offset` is not set back when the file is started over, so from 5 MiB on every
frame starts it over again (`recording_ends`). The file is not what it is meant
to be (`Held`) from the first frame on (`faithful_iff`).
-/

namespace XH.Proof.Camera

open XH.Impl.Camera

/-! ## What the file is meant to be -/

/-- The frames that the file is to hold, before and after another one is popped:
with 5 MiB the file is started over, and the frame may be left out then. -/
inductive Holds (held : List Frame) (f : Frame) : List Frame → Prop
  | next : (held.flatMap Frame.bytes).length < recordLimit → Holds held f (held ++ [f])
  | restart : recordLimit ≤ (held.flatMap Frame.bytes).length → Holds held f [f]
  | dropped : recordLimit ≤ (held.flatMap Frame.bytes).length → Holds held f []

/-- The frames that the file is to hold, before and after a run. -/
inductive Held : List Frame → List Frame → List Frame → Prop
  | nil {held : List Frame} : Held held [] held
  | cons {held held' held'' fs : List Frame} {f : Frame} : Holds held f held' → Held held' fs held'' →
      Held held (f :: fs) held''

/-- At every moment the file holds the frames it is to hold. -/
def Faithful (ts : List TopFrame) : Prop :=
  ∀ n, ∃ held, Held [] ((ts.take n).map TopFrame.frame) held ∧
    (startDataTransfer (ts.take n)).recordFile = held.flatMap Frame.bytes

/-- The first frame is held. -/
theorem Held.first {f : Frame} {held : List Frame} (h : Held [] [f] held) : held = [f] := by
  rcases h with _ | ⟨hs, hr⟩
  rcases hr with _ | _
  rcases hs with hs | hs | hs
  · rfl
  · rfl
  · exact absurd hs (by decide)

/-! ## What it is -/

/-- The size that is read is that of the frame. -/
theorem TopFrame.size (t : TopFrame) : sizeofFrameInfo + sizeAt t.heap t.topframe = t.frame.bytes.length := by
  rw [sizeAt_frame t.copied, length_frame]

/-- What is written of a frame. -/
def written (t : TopFrame) : List Byte :=
  t.heap.load t.topframe (u32 (sizeofCharPtr * u32 t.frame.bytes.length))

theorem round_eq (r : Recorder) (t : TopFrame) : r.round t =
    if r.offset < recordLimit then ⟨u32 (r.offset + u32 t.frame.bytes.length), r.recordFile ++ written t⟩
    else { r with recordFile := [] } := by
  rw [Recorder.round, TopFrame.size]
  rfl

/-- With 5 MiB reached, nothing is recorded any more. -/
theorem round_ends {r : Recorder} (h : recordLimit ≤ r.offset) (t : TopFrame) :
    (r.round t).recordFile = [] ∧ (r.round t).offset = r.offset := by
  rw [round_eq, if_neg (by omega)]
  exact ⟨rfl, rfl⟩

theorem rounds_end {r : Recorder} (h : recordLimit ≤ r.offset) {ts : List TopFrame} (hne : ts ≠ []) :
    (ts.foldl Recorder.round r).recordFile = [] := by
  induction ts generalizing r with
  | nil => exact absurd rfl hne
  | cons t ts ih =>
    obtain ⟨hf, ho⟩ := round_ends h t
    rcases ts with _ | ⟨t', ts⟩
    · exact hf
    · exact ih (by rw [ho]; exact h) (List.cons_ne_nil _ _)

/-- From 5 MiB on the file stays empty, whatever is popped. -/
theorem recording_ends {ts : List TopFrame} (h : recordLimit ≤ (startDataTransfer ts).offset) {ts' : List TopFrame}
    (hne : ts' ≠ []) : (startDataTransfer (ts ++ ts')).recordFile = [] := by
  rw [startDataTransfer, List.foldl_append]
  exact rounds_end h hne

/-- Until then the file has all frames, each with what lies behind it. -/
theorem recorded {ts : List TopFrame} (h : ((ts.map TopFrame.frame).flatMap Frame.bytes).length < recordLimit) :
    startDataTransfer ts = ⟨((ts.map TopFrame.frame).flatMap Frame.bytes).length, ts.flatMap written⟩ := by
  induction ts using List.reverseRecOn with
  | nil => rfl
  | append_singleton ts t ih =>
    rw [List.map_append, List.flatMap_append, List.length_append, List.map_singleton, List.flatMap_singleton] at h
    have hl : recordLimit = 5242880 := rfl
    have hrun := ih (by omega)
    have hlast : startDataTransfer (ts ++ [t]) = (startDataTransfer ts).round t := by
      rw [startDataTransfer, List.foldl_append]
      rfl
    have hbytes : u32 t.frame.bytes.length = t.frame.bytes.length := u32_of_lt (by omega)
    rw [hlast, hrun, round_eq]
    dsimp only
    rw [if_pos (by omega), hbytes, u32_of_lt (by omega)]
    simp

/-- No number of bytes but 0 is four times itself. -/
theorem u32_four_mul_ne {n : Nat} (h : 0 < n) : u32 (sizeofCharPtr * u32 n) ≠ n := by
  intro he
  have hlt : n < 2 ^ 32 := by
    rw [← he]
    exact Nat.mod_lt _ (by decide)
  rw [u32_of_lt hlt, u32, sizeofCharPtr] at he
  have hq := Nat.div_add_mod (4 * n) (2 ^ 32)
  rw [he] at hq
  have hdvd : 2 ^ 32 ∣ 3 * n := ⟨4 * n / 2 ^ 32, by linarith⟩
  have hle := Nat.le_of_dvd h (Nat.Coprime.dvd_of_dvd_mul_left (by norm_num) hdvd)
  exact absurd hlt (Nat.not_lt.mpr hle)

/-- More or less than the frame is written. -/
theorem length_written_ne (t : TopFrame) : (written t).length ≠ t.frame.bytes.length := by
  have hl : 0 < t.frame.bytes.length := by
    rw [length_frame]
    exact Nat.add_pos_left (by decide) _
  rw [written, Mem.length_load]
  exact u32_four_mul_ne hl

/-- The recording is faithful only as long as there is none. -/
theorem faithful_iff (ts : List TopFrame) : Faithful ts ↔ ts = [] := by
  constructor
  · intro h
    rcases ts with _ | ⟨t, ts⟩
    · rfl
    · obtain ⟨held, hh, hf⟩ := h 1
      rw [List.take_succ_cons, List.take_zero] at hh hf
      have hw : (startDataTransfer [t]).recordFile = written t := by
        show (Recorder.initial.round t).recordFile = written t
        rw [round_eq, if_pos (by decide)]
        rfl
      rw [hh.first, hw, List.flatMap_singleton] at hf
      exact absurd (congrArg List.length hf) (length_written_ne t)
  · rintro rfl n
    exact ⟨[], by rw [List.take_nil]; exact .nil, by rw [List.take_nil]; rfl⟩

/-- A frame without data, in memory that is 0 all over. -/
def emptyFrame : TopFrame := ⟨fun _ => 0, 0, ⟨⟨0, 0, 0, 0, 0, 0, 0, 0, 0⟩, [], rfl⟩, by decide⟩

/-- The file has 144 bytes instead of 36. -/
theorem frame_overread : (startDataTransfer [emptyFrame]).recordFile = List.replicate 144 0 ∧
    emptyFrame.frame.bytes = List.replicate 36 0 ∧ ¬ Faithful [emptyFrame] := by
  have hfile : (startDataTransfer [emptyFrame]).recordFile = List.replicate 144 0 := by decide
  have hbytes : emptyFrame.frame.bytes = List.replicate 36 0 := by decide
  refine ⟨hfile, hbytes, fun h => ?_⟩
  obtain ⟨held, hh, hf⟩ := h 1
  rw [show [emptyFrame].take 1 = [emptyFrame] from rfl] at hh hf
  rw [hh.first, hfile, List.flatMap_singleton, hbytes] at hf
  exact absurd (congrArg List.length hf) (by simp)

end XH.Proof.Camera
