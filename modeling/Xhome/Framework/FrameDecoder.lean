import Mathlib.Data.List.Basic

/-!
# Decoding frames from a stream

A decoder looks at the bytes received so far. It returns a frame or throws, or
it returns nothing, and says which bytes are left; nothing returned and all
bytes left means that more are needed. `callDecode` applies it until then.
`Incremental` is what makes the result independent of how the stream was cut:
`decodeAll_append`.
-/

namespace XH

variable {α β ε : Type}

/-- What was decoded: the frames, the bytes left, and the exception that ended
it. -/
structure Decoded (α β ε : Type) where
  frames : List α
  rest : List β
  fault : Option ε
  deriving Repr, DecidableEq

/-- The loop of a frame decoder. Each round takes bytes from the buffer, and
`fuel` counts the rounds. -/
def callDecode (decode : List β → Except ε (Option α) × List β) : Nat → List β → Decoded α β ε
  | 0, buf => ⟨[], buf, none⟩
  | _ + 1, [] => ⟨[], [], none⟩
  | fuel + 1, b :: bs =>
    match decode (b :: bs) with
    | (.error f, rest) => ⟨[], rest, some f⟩
    | (.ok none, rest) =>
      if rest.length = (b :: bs).length then ⟨[], rest, none⟩ else callDecode decode fuel rest
    | (.ok (some m), rest) =>
      let d := callDecode decode fuel rest
      { d with frames := m :: d.frames }

def decodeAll (decode : List β → Except ε (Option α) × List β) (buf : List β) : Decoded α β ε :=
  callDecode decode buf.length buf

/-- More bytes behind those a decoder has decided on change nothing. -/
structure Incremental (decode : List β → Except ε (Option α) × List β) : Prop where
  shorter : ∀ {buf rest : List β} {r : Except ε (Option α)}, decode buf = (r, rest) → rest.length ≤ buf.length
  waits : ∀ {buf rest : List β}, decode buf = (.ok none, rest) → rest.length = buf.length → rest = buf
  reads : ∀ {buf rest : List β} {m : α}, decode buf = (.ok (some m), rest) → rest.length < buf.length
  decides : ∀ {buf rest : List β} {r : Except ε (Option α)}, decode buf = (r, rest) →
    (r = .ok none → rest.length ≠ buf.length) → ∀ more, decode (buf ++ more) = (r, rest ++ more)

namespace Incremental

variable {decode : List β → Except ε (Option α) × List β}

/-- The loop ends before its fuel does. -/
theorem callDecode_eq (hd : Incremental decode) {fuel : Nat} {buf : List β} (h : buf.length ≤ fuel) :
    callDecode decode fuel buf = decodeAll decode buf := by
  suffices ∀ (n m : Nat) (buf : List β), buf.length ≤ n → buf.length ≤ m →
      callDecode decode n buf = callDecode decode m buf from this _ _ _ h (Nat.le_refl _)
  intro n
  induction n with
  | zero =>
    intro m buf hn _
    obtain rfl := List.length_eq_zero_iff.mp (Nat.le_zero.mp hn)
    cases m <;> rfl
  | succ n ih =>
    intro m buf hn hm
    cases buf with
    | nil => cases m <;> rfl
    | cons b bs =>
      obtain ⟨m, rfl⟩ : ∃ k, m = k + 1 := ⟨m - 1, by simp only [List.length_cons] at hm; omega⟩
      have hlt : ∀ {rest : List β}, rest.length < (b :: bs).length →
          callDecode decode n rest = callDecode decode m rest :=
        fun hl => ih m _ (by omega) (by omega)
      simp only [callDecode]
      split
      · rfl
      · rename_i rest he
        split
        · rfl
        · exact hlt (Nat.lt_of_le_of_ne (hd.shorter he) ‹_›)
      · rename_i rest he
        rw [hlt (hd.reads he)]

/-- One round of the loop. -/
theorem decodeAll_eq (hd : Incremental decode) {buf : List β} (hb : buf ≠ []) :
    decodeAll decode buf = match decode buf with
      | (.error f, rest) => ⟨[], rest, some f⟩
      | (.ok none, rest) => if rest.length = buf.length then ⟨[], rest, none⟩ else decodeAll decode rest
      | (.ok (some m), rest) => { decodeAll decode rest with frames := m :: (decodeAll decode rest).frames } := by
  cases buf with
  | nil => exact absurd rfl hb
  | cons b bs =>
    rw [decodeAll, List.length_cons, callDecode, List.length_cons]
    split
    · rfl
    · rename_i rest he
      have hs := hd.shorter he
      rw [List.length_cons] at hs
      split
      · rfl
      · exact hd.callDecode_eq (by omega)
    · rename_i m rest he
      have hs := hd.reads he
      rw [List.length_cons] at hs
      rw [hd.callDecode_eq (show rest.length ≤ bs.length by omega)]

/-- More bytes after those already decoded. -/
def feed (decode : List β → Except ε (Option α) × List β) (d : Decoded α β ε) (more : List β) : Decoded α β ε :=
  match d.fault with
  | some f => ⟨d.frames, d.rest ++ more, some f⟩
  | none =>
    let d' := decodeAll decode (d.rest ++ more)
    { d' with frames := d.frames ++ d'.frames }

/-- A stream may be decoded in parts. -/
theorem decodeAll_append (hd : Incremental decode) (buf more : List β) :
    decodeAll decode (buf ++ more) = feed decode (decodeAll decode buf) more := by
  induction hn : buf.length using Nat.strongRecOn generalizing buf with
  | _ n ih =>
    rcases eq_or_ne buf [] with rfl | hb
    · rfl
    have hb' : buf ++ more ≠ [] := fun e => hb (List.append_eq_nil_iff.mp e).1
    cases he : decode buf with
    | mk r rest =>
      cases r with
      | error f =>
        have hmore := hd.decides he (fun e => by cases e) more
        rw [hd.decodeAll_eq hb, hd.decodeAll_eq hb', he, hmore]
        rfl
      | ok r =>
        cases r with
        | none =>
          by_cases hl : rest.length = buf.length
          · obtain rfl := hd.waits he hl
            rw [hd.decodeAll_eq hb, he]
            simp only [if_true]
            rfl
          · have hmore := hd.decides he (fun _ => hl) more
            have hs := hd.shorter he
            have hl' : (rest ++ more).length ≠ (buf ++ more).length := by
              rw [List.length_append, List.length_append]
              omega
            rw [hd.decodeAll_eq hb, hd.decodeAll_eq hb', he, hmore]
            simp only [if_neg hl, if_neg hl']
            exact ih rest.length (by omega) rest rfl
        | some m =>
          have hmore := hd.decides he (fun e => by cases e) more
          have hs := hd.reads he
          rw [hd.decodeAll_eq hb, hd.decodeAll_eq hb', he, hmore]
          simp only
          rw [ih rest.length (by omega) rest rfl]
          simp only [feed]
          cases (decodeAll decode rest).fault <;> rfl

end Incremental

end XH
