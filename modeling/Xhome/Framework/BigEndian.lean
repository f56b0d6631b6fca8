import Mathlib.Tactic.Ring
import Xhome.Framework.Memory

/-!
# Numbers in network order

`beBytes k n` are the `k` bytes of `n` with the highest one first, and `beValue`
reads such bytes back.
-/

namespace XH

def beBytes (k n : Nat) : List Byte := (bytesOf k n).reverse

def beValue (bs : List Byte) : Nat := valueOf bs.reverse

@[simp] theorem length_beBytes (k n : Nat) : (beBytes k n).length = k := by
  rw [beBytes, List.length_reverse, length_bytesOf]

theorem beValue_beBytes (k n : Nat) : beValue (beBytes k n) = n % 256 ^ k := by
  rw [beValue, beBytes, List.reverse_reverse, valueOf_bytesOf]

theorem valueOf_append (xs ys : List Byte) : valueOf (xs ++ ys) = valueOf xs + 256 ^ xs.length * valueOf ys := by
  induction xs with
  | nil => simp [valueOf]
  | cons x xs ih =>
    rw [List.cons_append, valueOf, valueOf, ih, List.length_cons, Nat.pow_succ]
    ring

theorem beValue_append (xs ys : List Byte) : beValue (xs ++ ys) = beValue xs * 256 ^ ys.length + beValue ys := by
  rw [beValue, beValue, beValue, List.reverse_append, valueOf_append, List.length_reverse]
  ring

theorem drop_beBytes_append (k n : Nat) (rest : List Byte) : (beBytes k n ++ rest).drop k = rest :=
  List.drop_left' (length_beBytes k n)

end XH
