import Xhome.Framework.Windows
import Xhome.Proof.Cutter.Retry

/-!
# Block files are consistent

The checksum loop treats the windows of 22400 bytes of a block's data, however
they lie in its buffers (`checkSumStores_eq`), so the header of a block of at
most 338 windows describes the data behind it (`headerOf_describes`).
-/

namespace XH.Proof.Cutter

open XH.Impl.Cutter

/-! ## Checksums -/

/-- The checksum of a window. -/
def windowSum (w : List Byte) : BitVec 32 := checkSumNew [w]

/-- The state of the checksum loop behind the data `d`. -/
structure Summed (d : List Byte) (st : CheckState) : Prop where
  windowed : Windowed flvBlockSize windowSum d st.stored st.pieceBuf
  checkSumVal : st.checkSumVal = st.stored.length

theorem flvBlockSize_pos : 0 < flvBlockSize := by decide

theorem Summed.length_pieceBuf {d : List Byte} {st : CheckState} (h : Summed d st) :
    st.pieceBuf.length < flvBlockSize :=
  h.windowed.length_rest ▸ Nat.mod_lt _ flvBlockSize_pos

/-- One round of the loop. -/
theorem Summed.copy {d src : List Byte} {st : CheckState} (h : Summed d st) {n : Nat}
    (hn : st.pieceBuf.length + n ≤ flvBlockSize) (h₀ : 0 < n) (hs : n ≤ src.length) :
    Summed (d ++ src.take n) (st.copy src n) := by
  have hl : (src.take n).length = n := by rw [List.length_take]; omega
  unfold CheckState.copy
  dsimp only
  split
  · rename_i he
    rw [List.length_append, hl] at he
    refine ⟨?_, ?_⟩
    · rw [CheckState.store, h.checkSumVal]
      exact h.windowed.append_eq (by rw [hl, he]) (by omega)
    · simp only [CheckState.store, List.length_append, List.length_singleton, h.checkSumVal]
  · rename_i he
    rw [List.length_append, hl] at he
    exact ⟨h.windowed.append_lt (by rw [hl]; omega), h.checkSumVal⟩

theorem Summed.copyLoop :
    ∀ {n : Nat} {d src : List Byte} {st : CheckState}, Summed d st → src.length ≤ n →
      Summed (d ++ src) (copyLoop n st src)
  | 0, d, src, st, h, hl => by
    rw [List.length_eq_zero_iff.mp (Nat.le_zero.mp hl), List.append_nil]
    exact h
  | n + 1, d, [], st, h, _ => by rw [List.append_nil]; exact h
  | n + 1, d, b :: src, st, h, hl => by
    have hp := h.length_pieceBuf
    simp only [List.length_cons] at hl
    show Summed _ (Impl.Cutter.copyLoop n (st.copy (b :: src) (min (flvBlockSize - st.pieceBuf.length) (b :: src).length))
      ((b :: src).drop (min (flvBlockSize - st.pieceBuf.length) (b :: src).length)))
    generalize hk : min (flvBlockSize - st.pieceBuf.length) (b :: src).length = k
    have hk' : k ≤ (b :: src).length := by omega
    have h₀ : 0 < k := by simp only [List.length_cons] at hk; omega
    have hc : Summed _ (st.copy (b :: src) k) := h.copy (by omega) h₀ hk'
    have hd : ((b :: src).drop k).length ≤ n := by rw [List.length_drop, List.length_cons]; omega
    have := Summed.copyLoop hc hd
    rwa [List.append_assoc, List.take_append_drop] at this

theorem summed_foldl :
    ∀ (data : Piece) {d : List Byte} {st : CheckState}, Summed d st →
      Summed (d ++ data.flatten) (data.foldl (fun st b => copyLoop b.length st b) st)
  | [], d, st, h => by rw [List.flatten_nil, List.append_nil]; exact h
  | b :: data, d, st, h => by
    rw [List.foldl_cons, List.flatten_cons, ← List.append_assoc]
    exact summed_foldl data (h.copyLoop le_rfl)

/-- The stores of the checksum loop: one for each window of the data. -/
theorem checkSumStores_eq (data : Piece) :
    checkSumStores data = (List.range (windowCount flvBlockSize (Piece.size data))).map fun i =>
      (i, windowSum (window flvBlockSize i data.flatten)) := by
  have h : Summed data.flatten (checkSumLoop data) := summed_foldl data (d := []) ⟨.nil, rfl⟩
  rw [← Piece.length_flatten, checkSumStores]
  split
  · rename_i hr
    rw [CheckState.store, h.checkSumVal]
    exact h.windowed.finish flvBlockSize_pos fun e => hr (by rw [e]; rfl)
  · rename_i hr
    have he : (checkSumLoop data).pieceBuf = [] := List.length_eq_zero_iff.mp (not_not.mp hr)
    exact (he ▸ h.windowed).finish_nil

/-! ## The header of a block -/

/-- The data `CHECKSUM_LIST` has room for. -/
def maxData : Nat := checksumListEntries * flvBlockSize

/-- The header describes the data behind it. -/
structure Describes (md5 : List Byte → Vector Byte 16) (h : FlvBlockHeader) (id : Nat) (data : List Byte) : Prop where
  dataLength : h.dataLength = data.length
  blockId : h.blockId = id
  blockHeaderLength : h.blockHeaderLength = 48 + 4 * windowCount 22400 data.length
  checksumList : ∀ i < windowCount 22400 data.length,
    h.checksumList[i]? = some (checkSumNew [(data.drop (22400 * i)).take 22400])
  hashValue : h.hashValue = md5 ((h.serialize.drop 16).take (h.blockHeaderLength - 16))

theorem length_serialize (h : FlvBlockHeader) : h.serialize.length = 1400 := by
  have hc : (h.checksumList.toList.flatMap fun c => le32 c.toNat).length = 338 * 4 := by
    have h₄ : (fun c : BitVec 32 => (le32 c.toNat).length) = fun _ => 4 := rfl
    rw [List.length_flatMap, h₄, List.map_const', List.sum_replicate_nat, Vector.length_toList]
  simp only [FlvBlockHeader.serialize, List.length_append, Vector.length_toList, hc]
  rfl

/-- The bytes behind `HASH_VALUE` do not depend on it. -/
theorem md5Input_hashBlockHeader (md5 : List Byte → Vector Byte 16) (h : FlvBlockHeader) :
    md5Input (hashBlockHeader md5 h) = md5Input h := by
  have hd : ∀ g : FlvBlockHeader, g.serialize.drop 16 = g.rid.toList ++ le32 g.blockHeaderLength ++ le32 g.dataLength ++
      le32 g.blockId ++ le32 g.version ++ g.checksumList.toList.flatMap fun c => le32 c.toNat := fun g => by
    simp only [FlvBlockHeader.serialize, List.append_assoc]
    exact List.drop_left' (Vector.length_toList)
  rw [md5Input, md5Input, hd, hd]
  rfl

/-- The entries stored one after the other. -/
theorem storeAll_range (l : Vector (BitVec 32) 338) (f : Nat → BitVec 32) :
    ∀ {k i : Nat}, k ≤ 338 → i < k → (storeAll l ((List.range k).map fun i => (i, f i)))[i]? = some (f i)
  | k + 1, i, hk, hi => by
    have e : storeAll l ((List.range (k + 1)).map fun i => (i, f i)) =
        (storeAll l ((List.range k).map fun i => (i, f i))).setIfInBounds k (f k) := by
      simp only [storeAll, List.range_succ, List.map_append, List.map_singleton, List.foldl_append, List.foldl_cons,
        List.foldl_nil]
    rw [e]
    rcases Nat.lt_succ_iff_lt_or_eq.mp hi with h | rfl
    · rw [Vector.getElem?_setIfInBounds_ne (by omega)]
      exact storeAll_range l f (by omega) h
    · exact Vector.getElem?_setIfInBounds_self_of_lt (by omega)

theorem windowCount_le {n k len : Nat} (h : len ≤ k * n) : windowCount n len ≤ k := by
  unfold windowCount
  rcases Nat.eq_zero_or_pos n with rfl | hn
  · simp only [Nat.mul_zero, Nat.le_zero] at h
    simp [h]
  · have hdm := Nat.div_add_mod len n
    split
    · rename_i hr
      have : n * (len / n) < n * k := by rw [Nat.mul_comm n k]; omega
      exact Nat.lt_of_mul_lt_mul_left this
    · rw [Nat.add_zero]
      exact Nat.div_le_of_le_mul (by rw [Nat.mul_comm]; exact h)

/-- The header assigned to a block describes its data, if `CHECKSUM_LIST` has
room for it. -/
theorem headerOf_describes (env : Env) (w : Writer) {data : Piece} (hd : Piece.size data ≤ maxData) :
    Describes env.md5 (headerOf env w (u32 (Piece.size data)) data) w.currentPieceId data.flatten := by
  have hlen : u32 (Piece.size data) = Piece.size data :=
    u32_of_lt (hd.trans_lt (by decide))
  have hl : data.flatten.length = Piece.size data := Piece.length_flatten data
  refine ⟨?_, rfl, ?_, fun i hi => ?_, ?_⟩
  · rw [hl]; exact hlen
  · rw [hl]; show blockHeaderLengthOf (u32 (Piece.size data)) = _; rw [hlen]; rfl
  · rw [hl] at hi
    show (storeAll _ (checkSumStores data))[i]? = _
    rw [checkSumStores_eq]
    exact storeAll_range _ (fun i => windowSum (window flvBlockSize i data.flatten)) (windowCount_le hd) hi
  · exact congrArg env.md5 (md5Input_hashBlockHeader env.md5 _).symm

end XH.Proof.Cutter
