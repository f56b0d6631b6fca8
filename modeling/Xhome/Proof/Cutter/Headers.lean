import Xhome.Proof.Cutter.Sync

/-!
# Sequence headers in the header piece

`Carries`: a header piece holds given sequence headers, and no others than given
ones. `HandleUpdateHeader` puts one in place of the first tag of its type
(`updated_carries`). `Served`: handled in order, the messages of the writer's
queue bring each data piece the header piece its `Mark` asks for.
-/

namespace XH.Proof.Cutter

open XH.Impl.Cutter

/-- The codecs with sequence headers. -/
inductive Codec where
  | aac
  | avc
  deriving DecidableEq

def Codec.type : Codec → Nat
  | .aac => flvAudiodata
  | .avc => flvVideodata

def Codec.codes : Codec → Buffer → Bool
  | .aac => isAac
  | .avc => isAvc

/-- A body of the tag type `type` that is a sequence header. -/
def Codec.heads (k : Codec) (type : Nat) (body : Buffer) : Bool :=
  type == k.type && k.codes body && isSequenceHeader body

/-- A tag that is a sequence header. -/
def Codec.isHeader (k : Codec) (t : Buffer × Buffer) : Bool := k.heads (tagType t.1) t.2

/-- A tag as it stands in a header piece. -/
def zeroTs (t : Buffer × Buffer) : Buffer × Buffer := (setTagTs t.1 0, t.2)

/-- The last sequence header among tags. -/
def newest (k : Codec) (ts : List (Buffer × Buffer)) : Option (Buffer × Buffer) := (ts.filter k.isHeader).getLast?

theorem Codec.type_inj {k k' : Codec} (h : k.type = k'.type) : k = k' := by
  cases k <;> cases k' <;> first | rfl | cases h

theorem Codec.type_of_isHeader {k : Codec} {t : Buffer × Buffer} (h : k.isHeader t = true) : tagType t.1 = k.type := by
  simp only [isHeader, heads, Bool.and_eq_true, beq_iff_eq] at h
  exact h.1.1

theorem newest_append (k : Codec) (ts ts' : List (Buffer × Buffer)) :
    newest k (ts ++ ts') = (newest k ts').or (newest k ts) := by
  rw [newest, List.filter_append, List.getLast?_append]
  rfl

theorem newest_singleton (k : Codec) (t : Buffer × Buffer) : newest k [t] = if k.isHeader t then some t else none := by
  rw [newest]
  split
  · rw [List.filter_cons_of_pos ‹_›]; rfl
  · rw [List.filter_cons_of_neg ‹_›]; rfl

theorem newest_mem {k : Codec} {ts : List (Buffer × Buffer)} {t : Buffer × Buffer} (h : newest k ts = some t) :
    t ∈ ts ∧ k.isHeader t = true := List.mem_filter.mp (List.mem_of_getLast? h)

/-! ## The header piece -/

/-- The header piece `hp` is a file header and tags. Among them are the sequence
headers `want`; each sequence header among them is one with `own`. -/
def Carries (hp : Piece) (want : Codec → Option (Buffer × Buffer)) (own : Buffer × Buffer → Prop) : Prop :=
  ∃ fileheader tags, hp = fileheader :: pairs tags ∧
    (∀ (k : Codec) t, want k = some t → k.isHeader t = true ∧ zeroTs t ∈ tags) ∧
    ∀ (k : Codec) p, p ∈ tags → k.isHeader p = true → ∃ t, own t ∧ zeroTs t = p

/-- The sequence headers of `hp` are of the tags `before`, the last of each
codec among them. -/
def Fresh (hp : Piece) (before : List (Buffer × Buffer)) : Prop := Carries hp (newest · before) (· ∈ before)

theorem Carries.mono {hp : Piece} {want want' : Codec → Option (Buffer × Buffer)} {own own' : Buffer × Buffer → Prop}
    (h : Carries hp want own) (hw : ∀ k, want' k = want k) (ho : ∀ t, own t → own' t) :
    Carries hp want' own' := by
  obtain ⟨f, tags, hp, h₁, h₂⟩ := h
  refine ⟨f, tags, hp, fun k t e => h₁ k t ((hw k).symm.trans e), fun k p hm hk => ?_⟩
  obtain ⟨t, ht, e⟩ := h₂ k p hm hk
  exact ⟨t, ho t ht, e⟩

/-- The header piece with the tag of the buffers `head` and `body`. -/
def updated (head body : Buffer) : Piece → Option Piece
  | [] => none
  | first :: tags => (replaceTag (tagType head) (setTagTs head 0) body tags).map fun r =>
    if r.2.isSome then first :: r.1 else first :: r.1 ++ [setTagTs head 0, body]

theorem handleUpdateHeader_updated {head body : Buffer} {s t : World} (h : handleUpdateHeader head body s = .ret () t) :
    updated head body s.w.headerPiece = some t.w.headerPiece := by
  obtain ⟨first, tags, tags', removed, hp, hr, ⟨n, rfl, rfl⟩ | ⟨rfl, rfl⟩⟩ := handleUpdateHeader_cases h
  · rw [hp, updated, hr]; rfl
  · rw [hp, updated, hr]; rfl

/-- On whole tags, the first of the type is replaced. -/
theorem replaceTag_pairs {type : Nat} {head body : Buffer} :
    ∀ {l : List (Buffer × Buffer)} {tags' : List Buffer} {removed : Option Nat},
      replaceTag type head body (pairs l) = some (tags', removed) →
      (∃ l₁ p l₂, l = l₁ ++ p :: l₂ ∧ tagType p.1 = type ∧ tags' = pairs (l₁ ++ (head, body) :: l₂) ∧
        removed.isSome = true) ∨ (tags' = pairs l ∧ removed.isSome = false)
  | [], _, _, h => by cases h; exact .inr ⟨rfl, rfl⟩
  | p :: l, tags', removed, h => by
    have hp : pairs (p :: l) = p.1 :: p.2 :: pairs l := rfl
    rw [hp, replaceTag] at h
    split at h
    · cases h
    · split at h
      · cases h
        exact .inl ⟨[], p, l, rfl, ‹_›, rfl, rfl⟩
      · obtain ⟨⟨tags, removed'⟩, hr, e⟩ := Option.map_eq_some_iff.mp h
        cases e
        rcases replaceTag_pairs hr with ⟨l₁, q, l₂, rfl, hq, rfl, hs⟩ | ⟨rfl, hs⟩
        · exact .inl ⟨p :: l₁, q, l₂, rfl, hq, rfl, hs⟩
        · exact .inr ⟨rfl, hs⟩

/-- The sequence header `t`, buffered with another timestamp perhaps, comes into
the header piece. -/
theorem updated_carries {hp hp' : Piece} {want : Codec → Option (Buffer × Buffer)} {own : Buffer × Buffer → Prop}
    (h : Carries hp want own) {k : Codec} {t b : Buffer × Buffer} (hk : k.isHeader t = true) (hb : zeroTs b = zeroTs t)
    (ho : own t) (hu : updated b.1 b.2 hp = some hp') :
    Carries hp' (fun k' => if k' = k then some t else want k') own := by
  obtain ⟨fileheader, tags, rfl, hwant, hown⟩ := h
  obtain ⟨⟨tags', removed⟩, hr, rfl⟩ := Option.map_eq_some_iff.mp hu
  have hbt : (setTagTs b.1 0, b.2) = zeroTs t := hb
  have hhead : setTagTs b.1 0 = setTagTs t.1 0 := congrArg Prod.fst hbt
  have htype : tagType b.1 = k.type := by
    rw [← tagType_setTagTs b.1 0, hhead, tagType_setTagTs, Codec.type_of_isHeader hk]
  -- the new tags: those of before, one of the type perhaps apart, and the new one
  have hnew : ∀ l : List (Buffer × Buffer), zeroTs t ∈ l → (∀ p ∈ l, p = zeroTs t ∨ p ∈ tags) →
      (∀ p ∈ tags, tagType p.1 ≠ k.type → p ∈ l) →
      Carries (fileheader :: pairs l) (fun k' => if k' = k then some t else want k') own := fun l ht hsub hkeep => by
    refine ⟨fileheader, l, rfl, fun k' t' e => ?_, fun k' p hm hk' => ?_⟩
    · dsimp only at e
      split at e
      · rename_i he
        cases e
        exact ⟨he ▸ hk, ht⟩
      · rename_i hne
        obtain ⟨hk', hm⟩ := hwant k' t' e
        refine ⟨hk', hkeep _ hm fun hty => hne (Codec.type_inj ?_)⟩
        rw [← hty, zeroTs, tagType_setTagTs, Codec.type_of_isHeader hk']
    · rcases hsub p hm with rfl | hm
      · exact ⟨t, ho, rfl⟩
      · exact hown k' p hm hk'
  rcases replaceTag_pairs hr with ⟨l₁, p, l₂, rfl, hp, rfl, hs⟩ | ⟨rfl, hs⟩
  · simp only [hs, ite_true, hbt]
    refine hnew _ (by simp) (fun q hq => ?_) fun q hq hty => ?_
    · simp only [List.mem_append, List.mem_cons] at hq ⊢
      tauto
    · rcases List.mem_append.mp hq with hq | hq
      · exact List.mem_append_left _ hq
      · rcases List.mem_cons.mp hq with rfl | hq
        · exact absurd (hp.trans htype) hty
        · exact List.mem_append_right _ (List.mem_cons_of_mem _ hq)
  · have hcat : fileheader :: pairs tags ++ [setTagTs b.1 0, b.2] = fileheader :: pairs (tags ++ [zeroTs t]) := by
      rw [← hbt]
      simp [pairs]
    simp only [hs, Bool.false_eq_true, ite_false, hcat]
    refine hnew _ (by simp) (fun q hq => ?_) fun q hq _ => List.mem_append_left _ hq
    exact (List.mem_append.mp hq).elim .inr fun hq => .inl (List.mem_singleton.mp hq)

/-! ## The writer's queue -/

/-- What was received when a piece was posted: the tags of the connection before
those of the piece, and the tags of the piece. -/
structure Mark where
  before : List (Buffer × Buffer)
  tags : List (Buffer × Buffer)

/-- The tag in a piece: only its timestamp may differ. -/
def Stamped (t p : Buffer × Buffer) : Prop := p.2 = t.2 ∧ Restamped t.1 p.1

/-- The piece is made of the tags. -/
def Holds (tags : List (Buffer × Buffer)) (piece : Piece) : Prop := ∃ ps, piece = pairs ps ∧ List.Forall₂ Stamped tags ps

/-- Handled in order by a writer with the header piece `hp`, the data pieces of
the queue find the header pieces of their marks; the header piece then has `Q`. -/
def Served (Q : Piece → Prop) : List Msg → List Mark → Piece → Prop
  | [], ms, hp => ms = [] ∧ Q hp
  | .writePiece true piece _ _ :: q, ms, _ => Served Q q ms piece
  | .writePiece false piece _ _ :: q, ms, hp =>
    ∃ m ms', ms = m :: ms' ∧ Fresh hp m.before ∧ Holds m.tags piece ∧ Served Q q ms' hp
  | .updateHeader head body :: q, ms, hp => ∀ hp', updated head body hp = some hp' → Served Q q ms hp'
  | .readerError :: q, ms, hp => Served Q q ms hp

theorem Served.append {Q Q' : Piece → Prop} (q' : List Msg) (ms' : List Mark) (h' : ∀ hp, Q hp → Served Q' q' ms' hp) :
    ∀ {q : List Msg} {ms : List Mark} {hp : Piece}, Served Q q ms hp → Served Q' (q ++ q') (ms ++ ms') hp
  | [], _, hp, h => by
    obtain ⟨rfl, hq⟩ := h
    exact h' hp hq
  | .writePiece true _ _ _ :: q, _, _, h => Served.append q' ms' h' (q := q) h
  | .writePiece false _ _ _ :: q, _, _, h => by
    obtain ⟨m, ms, rfl, h₁, h₂, h₃⟩ := h
    exact ⟨m, ms ++ ms', rfl, h₁, h₂, Served.append q' ms' h' (q := q) h₃⟩
  | .updateHeader _ _ :: q, _, _, h => fun hp' hu => Served.append q' ms' h' (q := q) (h hp' hu)
  | .readerError :: q, _, _, h => Served.append q' ms' h' (q := q) h

theorem Served.mono {Q Q' : Piece → Prop} {q : List Msg} {ms : List Mark} {hp : Piece} (h : Served Q q ms hp)
    (hq : ∀ hp, Q hp → Q' hp) : Served Q' q ms hp := by
  have ha := Served.append [] [] (fun hp h => ⟨rfl, hq hp h⟩) h
  rwa [List.append_nil, List.append_nil] at ha

end XH.Proof.Cutter
