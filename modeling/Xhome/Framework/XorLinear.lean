import Mathlib.Logic.Function.Iterate

/-!
# Linear maps of bit vectors

The maps of bit vectors that respect exclusive or. Shifts, sums, compositions
and iterates of such maps are linear, and a linear map is determined by its
values on the single bits (`XorLinear.ext`), so an identity between two of them
is checked on a basis. `XorLinear.iterate_eq_zero`: once the kernels of the
iterates stop growing, no later iterate has a greater one.
-/

namespace XH

/-- `f` respects exclusive or. -/
def XorLinear {v w : Nat} (f : BitVec v → BitVec w) : Prop := ∀ x y, f (x ^^^ y) = f x ^^^ f y

namespace XorLinear

variable {u v w : Nat}

theorem map_zero {f : BitVec v → BitVec w} (hf : XorLinear f) : f 0#v = 0#w := by
  have h := hf 0#v 0#v
  rw [BitVec.xor_self, BitVec.xor_self] at h
  exact h

theorem refl : XorLinear fun x : BitVec w => x := fun _ _ => rfl

theorem comp {f : BitVec v → BitVec w} {g : BitVec u → BitVec v} (hf : XorLinear f) (hg : XorLinear g) :
    XorLinear fun x => f (g x) := fun x y => by
  show f (g (x ^^^ y)) = f (g x) ^^^ f (g y)
  rw [hg, hf]

theorem xor {f g : BitVec v → BitVec w} (hf : XorLinear f) (hg : XorLinear g) :
    XorLinear fun x => f x ^^^ g x := fun x y => by
  show f (x ^^^ y) ^^^ g (x ^^^ y) = (f x ^^^ g x) ^^^ (f y ^^^ g y)
  rw [hf, hg]
  ac_rfl

theorem shiftLeft (n : Nat) : XorLinear fun x : BitVec w => x <<< n :=
  fun x y => BitVec.shiftLeft_xor_distrib x y n

theorem ushiftRight (n : Nat) : XorLinear fun x : BitVec w => x >>> n :=
  fun x y => BitVec.ushiftRight_xor_distrib x y n

theorem iterate {f : BitVec w → BitVec w} (hf : XorLinear f) : ∀ n : Nat, XorLinear (f^[n])
  | 0 => refl
  | n + 1 => (iterate hf n).comp hf

/-- Two linear maps that agree on the single bits are equal. -/
theorem ext {f g : BitVec v → BitVec w} (hf : XorLinear f) (hg : XorLinear g)
    (h : ∀ i < v, f (BitVec.twoPow v i) = g (BitVec.twoPow v i)) (x : BitVec v) : f x = g x := by
  -- by the number of low bits of `x` that are kept
  have hlow : ∀ i, f ((x.setWidth i).setWidth v) = g ((x.setWidth i).setWidth v) := by
    intro i
    induction i with
    | zero =>
      have hz : (x.setWidth 0).setWidth v = 0#v := by
        rw [BitVec.of_length_zero (x := x.setWidth 0)]; simp
      rw [hz, hf.map_zero, hg.map_zero]
    | succ i ih =>
      by_cases hi : x.getLsbD i
      · have hx : (x.setWidth (i + 1)).setWidth v = (x.setWidth i).setWidth v ^^^ BitVec.twoPow v i := by
          ext j hj
          simp only [BitVec.getElem_xor, BitVec.getElem_setWidth, BitVec.getElem_twoPow, BitVec.getLsbD_setWidth]
          rcases Nat.lt_trichotomy j i with hlt | rfl | hgt
          · simp [show j < i + 1 by omega, hlt, show j ≠ i by omega]
          · simp [hi]
          · simp [show ¬ j < i + 1 by omega, show ¬ j < i by omega, show j ≠ i by omega]
        have hv : i < v := by
          by_contra hv
          rw [BitVec.getLsbD_of_ge x i (by omega)] at hi
          exact absurd hi (by decide)
        rw [hx, hf, hg, ih, h i hv]
      · rw [BitVec.setWidth_setWidth_succ_eq_setWidth_setWidth_of_getLsbD_false (by simpa using hi)]
        exact ih
  have hx : (x.setWidth v).setWidth v = x := by simp
  rw [← hx]
  exact hlow v

/-- What the iterate `m` is recovered from by `r` behind one more step has the
kernel of all later iterates. -/
theorem iterate_eq_zero {f r : BitVec w → BitVec w} (hf : XorLinear f) (hr : XorLinear r) {m : Nat}
    (h : ∀ x, r (f^[m + 1] x) = f^[m] x) {x : BitVec w} : ∀ {k : Nat}, f^[k] x = 0#w → f^[m] x = 0#w
  | k, hk => by
    rcases Nat.lt_or_ge m k with hlt | hle
    · obtain ⟨n, rfl⟩ := Nat.exists_eq_add_of_lt hlt
      have hs : f^[m + 1] (f^[n] x) = 0#w := by
        rw [← Function.iterate_add_apply, show m + 1 + n = m + n + 1 by omega]
        exact hk
      have hd : f^[m + n] x = 0#w := by
        rw [Function.iterate_add_apply, ← h, hs, hr.map_zero]
      exact iterate_eq_zero hf hr h hd
    · obtain ⟨n, rfl⟩ := Nat.exists_eq_add_of_le hle
      rw [Nat.add_comm, Function.iterate_add_apply, hk, (hf.iterate n).map_zero]
termination_by k => k

end XorLinear

end XH
