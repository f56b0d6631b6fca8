import Xhome.Framework.Utf8RoundTrip
import Xhome.Impl.App.CameraList

/-!
# What becomes of the list of cameras

A camera is a line of the file, and its id the first field of that line. The list
comes back as it was entered, after any number of reloads, exactly if no id has a
comma, a line end or a surrogate without a partner (`camera_list_survives`). With a
comma the id is cut, with a line end it becomes two entries; an id with a line of
commas only lets the reload fail after the file has been deleted
(`camera_list_lost`).
-/

namespace XH.Proof.App

open XH.Impl.App

/-! ## The characters of a line -/

theorem ascii_str {s : List Char} (h : ∀ c ∈ s, c.toNat < 0x80) : Utf8.Ascii (str s) := by
  intro u hu
  obtain ⟨c, hc, rfl⟩ := List.mem_map.mp hu
  have := h c hc
  rw [BitVec.toNat_ofNat, Nat.mod_eq_of_lt (by omega)]
  exact this

theorem ascii_literal {s : List Char} (h : s.all fun c => c.toNat < 0x80) : Utf8.Ascii (str s) :=
  ascii_str fun c hc => by simpa using List.all_eq_true.mp h c hc

theorem toNat_of_isDigit {c : Char} (h : c.isDigit) : 0x30 ≤ c.toNat ∧ c.toNat ≤ 0x39 := by
  simpa [Char.isDigit, UInt32.le_iff_toNat_le] using h

theorem ascii_decimal (n : Nat) : Utf8.Ascii (str (decimal n)) := ascii_str fun c hc => by
  have := toNat_of_isDigit (isDigit_of_mem_decimal hc)
  omega

/-- The characters below `0` are no digits. -/
theorem not_mem_decimal {u : CodeUnit} (h : u.toNat < 0x30) (n : Nat) : u ∉ str (decimal n) := fun hm => by
  obtain ⟨c, hc, rfl⟩ := List.mem_map.mp hm
  have hd := toNat_of_isDigit (isDigit_of_mem_decimal hc)
  rw [BitVec.toNat_ofNat, Nat.mod_eq_of_lt (by omega)] at h
  omega

/-- What stands behind the id in the address. -/
def urlTail (timestamp : Nat) : Str := str (decimal timestamp) ++ str ".jpeg".toList

theorem generateScreenUrl_eq (cid : Str) (timestamp : Nat) : generateScreenUrl cid timestamp =
    str "http://42.159.6.169/image/320/240/".toList ++ (cid ++ 0x2F :: urlTail timestamp) := by
  simp only [generateScreenUrl, urlTail, List.append_assoc]
  rfl

theorem itemOf_eq (cid : Str) (timestamp : Nat) : itemOf cid timestamp = cid ++ comma :: generateScreenUrl cid timestamp := by
  simp only [itemOf, separate, List.append_assoc, List.singleton_append]

theorem ascii_urlTail (timestamp : Nat) : Utf8.Ascii (urlTail timestamp) := by
  intro u hu
  rcases List.mem_append.mp hu with h | h
  · exact ascii_decimal timestamp u h
  · exact ascii_literal (by decide) u h

/-- The line is in one piece exactly if the id is. -/
theorem oneLine_itemOf (cid : Str) (timestamp : Nat) : OneLine cr lf (itemOf cid timestamp) ↔ OneLine cr lf cid := by
  have hd : OneLine cr lf (str (decimal timestamp)) := ⟨not_mem_decimal (by decide) _, not_mem_decimal (by decide) _⟩
  have hc : OneLine cr lf (str "http://42.159.6.169/image/320/240/".toList) := by decide
  have hj : OneLine cr lf (str ".jpeg".toList) := by decide
  rw [itemOf_eq, generateScreenUrl_eq, urlTail]
  simp only [OneLine, List.mem_append, List.mem_cons, not_or] at hd hc hj ⊢
  constructor
  · exact fun h => ⟨h.1.1, h.2.1⟩
  · exact fun h => ⟨⟨h.1, by decide, hc.1, h.1, by decide, hd.1, hj.1⟩, ⟨h.2, by decide, hc.2, h.2, by decide, hd.2, hj.2⟩⟩

/-- The line as it is read again. -/
theorem transcoded_itemOf (cid : Str) (timestamp : Nat) :
    Utf8.transcoded (itemOf cid timestamp) = itemOf (Utf8.transcoded cid) timestamp := by
  rw [itemOf_eq, itemOf_eq, Utf8.transcoded_append (by decide), generateScreenUrl_eq, generateScreenUrl_eq,
    Utf8.transcoded_ascii_append (ascii_literal (by decide)), Utf8.transcoded_append (by decide),
    Utf8.transcoded_ascii (ascii_urlTail timestamp)]

/-- The first field of a line ends at the first comma. -/
theorem head_split_url {a b : Str} (ha : comma ∉ a) (cid : Str) (timestamp : Nat) :
    (split comma (a ++ comma :: (b ++ generateScreenUrl cid timestamp))).head? = some a := by
  refine head_split ha ⟨0x68, List.mem_append_right _ ?_, by decide⟩
  rw [generateScreenUrl_eq]
  exact List.mem_append_left _ (by decide)

/-- Without a comma the id is the first field. -/
theorem head_split_itemOf {cid : Str} (h : comma ∉ cid) (timestamp : Nat) :
    (split comma (itemOf cid timestamp)).head? = some cid := by
  rw [itemOf_eq]
  exact head_split_url (b := []) h cid timestamp

/-- With one, the first field is shorter. -/
theorem head_split_comma {cid : Str} (h : comma ∈ cid) (timestamp : Nat) :
    ∃ a, (split comma (itemOf cid timestamp)).head? = some a ∧ a.length < cid.length := by
  obtain ⟨a, b, rfl, ha⟩ := List.eq_append_cons_of_mem h
  refine ⟨a, ?_, ?_⟩
  · rw [itemOf_eq, List.append_assoc, List.cons_append, List.append_cons b]
    exact head_split_url ha _ timestamp
  · rw [List.length_append, List.length_cons]
    omega

/-! ## The file -/

/-- The lines of these cameras, each with the time it was written. -/
def content (entered : List (Str × Nat)) : List Byte :=
  entered.flatMap fun e => Utf8.getBytes (itemOf e.1 e.2) ++ Utf8.getBytes [cr, lf]

theorem getBytes_crlf : Utf8.getBytes [cr, lf] = [0x0D, 0x0A] := by decide

theorem content_save (f : Store) (cid : Str) (timestamp : Nat) :
    (saveContentToLocal f (itemOf cid timestamp)).getD [] = f.getD [] ++ content [(cid, timestamp)] := by
  rw [saveContentToLocal, content, List.flatMap_singleton, Option.getD_some, List.append_assoc]

/-- What is read of the file. -/
theorem newString_content (entered : List (Str × Nat)) :
    Utf8.newString (content entered) = records cr lf (entered.map fun e => itemOf (Utf8.transcoded e.1) e.2) := by
  induction entered with
  | nil => rfl
  | cons e entered ih =>
    have hend : Utf8.newString (Utf8.getBytes [cr, lf] ++ content entered) = cr :: lf :: Utf8.newString (content entered) := by
      rw [getBytes_crlf, List.cons_append, List.singleton_append, Utf8.newString_cons_of_lt (by decide),
        Utf8.newString_cons_of_lt (by decide)]
      rfl
    rw [List.map_cons, records_cons, ← ih, ← transcoded_itemOf, ← hend, ← Utf8.newString_getBytes, ← List.append_assoc]
    rfl

theorem readFileFromData_eq (f : Store) : readFileFromData f = readLines cr lf false [] (Utf8.newString (f.getD [])) := by
  cases f with
  | none => rfl
  | some bs => rfl

/-- A list of cameras that the format can carry is read back line by line. -/
theorem read_content {f : Store} {entered : List (Str × Nat)} (hf : f.getD [] = content entered)
    (h : ∀ e ∈ entered, OneLine cr lf e.1 ∧ Utf8.Paired e.1) :
    readFileFromData f = entered.map fun e => itemOf e.1 e.2 := by
  have hmap : (entered.map fun e => itemOf (Utf8.transcoded e.1) e.2) = entered.map fun e => itemOf e.1 e.2 :=
    List.map_congr_left fun e he => by rw [(Utf8.transcoded_eq_iff e.1).mpr (h e he).2]
  rw [readFileFromData_eq, hf, newString_content, hmap]
  apply readLines_records (by decide)
  intro r hr
  obtain ⟨e, he, rfl⟩ := List.mem_map.mp hr
  exact (oneLine_itemOf e.1 e.2).mpr (h e he).1

/-! ## Entering, reloading and reading -/

/-- The ids are entered one after the other. -/
def addCameras (entered : List (Str × Nat)) : Store := entered.foldl (fun f e => addCamera f e.1 e.2) none

/-- Reloads one after the other; none of them is ended by an exception. -/
def reloads : List (Nat → Nat) → Store → Option Store
  | [], f => some f
  | times :: ts, f => if (reloadCameraList times f).2 then reloads ts (reloadCameraList times f).1 else none

/-- What is read back in the end are the ids that were entered. -/
def Survives (entered : List (Str × Nat)) (ts : List (Nat → Nat)) : Prop :=
  ∃ f, reloads ts (addCameras entered) = some f ∧ (readFileFromData f).map getCameraName = entered.map fun e => some e.1

/-- An id that a line can carry. -/
structure Carried (cid : Str) : Prop where
  noComma : comma ∉ cid
  oneLine : OneLine cr lf cid
  paired : Utf8.Paired cid

theorem content_append (entered entered' : List (Str × Nat)) : content (entered ++ entered') = content entered ++ content entered' :=
  List.flatMap_append

theorem content_addCameras (entered : List (Str × Nat)) : (addCameras entered).getD [] = content entered := by
  suffices h : ∀ f : Store, (entered.foldl (fun f e => addCamera f e.1 e.2) f).getD [] = f.getD [] ++ content entered from h none
  induction entered with
  | nil => exact fun f => (List.append_nil _).symm
  | cons e entered ih =>
    intro f
    rw [List.foldl_cons, ih, addCamera, content_save, List.append_assoc, ← content_append]
    rfl

/-- The file has a line for each of these ids. -/
def Stored (f : Store) (ids : List Str) : Prop := ∃ entered, f.getD [] = content entered ∧ entered.map Prod.fst = ids

section
variable {f : Store} {ids : List Str} (hc : ∀ id ∈ ids, Carried id)
include hc

theorem Stored.read (h : Stored f ids) : ∃ entered : List (Str × Nat), entered.map Prod.fst = ids ∧
    readFileFromData f = entered.map fun e => itemOf e.1 e.2 := by
  obtain ⟨entered, hf, rfl⟩ := h
  refine ⟨entered, rfl, read_content hf fun e he => ?_⟩
  have := hc e.1 (List.mem_map_of_mem he)
  exact ⟨this.oneLine, this.paired⟩

/-- The loop writes a line for each id. -/
theorem reloadItems_stored (times : Nat → Nat) (i : Nat) {entered : List (Str × Nat)} (he : entered.map Prod.fst = ids) :
    (reloadItems times i (entered.map fun e => itemOf e.1 e.2) f).2 = true ∧
      ∃ entered', entered'.map Prod.fst = ids ∧
        (reloadItems times i (entered.map fun e => itemOf e.1 e.2) f).1.getD [] = f.getD [] ++ content entered' := by
  induction entered generalizing i f ids with
  | nil => exact ⟨rfl, [], he, (List.append_nil _).symm⟩
  | cons e entered ih =>
    subst he
    have hhead := head_split_itemOf (hc e.1 List.mem_cons_self).noComma e.2
    obtain ⟨hok, entered', hids, hf⟩ := ih (f := saveContentToLocal f (itemOf e.1 (times i)))
      (fun id hid => hc id (List.mem_cons_of_mem _ hid)) (i + 1) rfl
    rw [List.map_cons, reloadItems, hhead]
    refine ⟨hok, (e.1, times i) :: entered', by rw [List.map_cons, hids]; rfl, ?_⟩
    show (reloadItems times (i + 1) _ _).1.getD [] = _
    rw [hf, content_save, List.append_assoc, ← content_append]
    rfl

/-- A reload returns, with the same ids in the file. -/
theorem Stored.reload (times : Nat → Nat) (h : Stored f ids) :
    (reloadCameraList times f).2 = true ∧ Stored (reloadCameraList times f).1 ids := by
  obtain ⟨entered, he, hr⟩ := h.read hc
  unfold reloadCameraList
  dsimp only
  split
  · exact ⟨rfl, h⟩
  · obtain ⟨hok, entered', hids, hf⟩ := reloadItems_stored hc (f := cleanLocalFiles f) times 0 he
    rw [hr]
    exact ⟨hok, entered', by rw [hf]; rfl, hids⟩

theorem Stored.reloads (h : Stored f ids) (ts : List (Nat → Nat)) : ∃ f', reloads ts f = some f' ∧ Stored f' ids := by
  induction ts generalizing f with
  | nil => exact ⟨f, rfl, h⟩
  | cons times ts ih =>
    obtain ⟨hok, hs⟩ := h.reload hc times
    rw [App.reloads, if_pos hok]
    exact ih hs

theorem Stored.names (h : Stored f ids) : (readFileFromData f).map getCameraName = ids.map some := by
  obtain ⟨entered, rfl, hr⟩ := h.read hc
  rw [hr, List.map_map, List.map_map]
  exact List.map_congr_left fun e he => head_split_itemOf (hc e.1 (List.mem_map_of_mem he)).noComma e.2

end

/-- Ids that are read back as they were entered can be carried. -/
theorem carried_of_names {entered : List (Str × Nat)}
    (h : (readFileFromData (addCameras entered)).map getCameraName = entered.map fun e => some e.1) :
    ∀ e ∈ entered, Carried e.1 := by
  have hread : readFileFromData (addCameras entered) =
      readLines cr lf false [] (records cr lf (entered.map fun e => itemOf (Utf8.transcoded e.1) e.2)) := by
    rw [readFileFromData_eq, content_addCameras, newString_content]
  -- there is one line for each id
  have hone := (length_readLines_iff (show cr ≠ lf by decide) _).mp (by
    have hlen := congrArg List.length h
    rw [List.length_map, List.length_map, hread] at hlen
    rw [hlen, List.length_map])
  rw [hread, readLines_records (by decide) hone, List.map_map] at h
  intro e he
  have hname : (split comma (itemOf (Utf8.transcoded e.1) e.2)).head? = some e.1 := List.map_inj_left.mp h e he
  have hcomma : comma ∉ Utf8.transcoded e.1 := fun hm => by
    obtain ⟨a, ha, hlt⟩ := head_split_comma hm e.2
    rw [hname] at ha
    rw [← Option.some.inj ha, Utf8.length_transcoded] at hlt
    exact absurd hlt (Nat.lt_irrefl _)
  have hsame : Utf8.transcoded e.1 = e.1 := by
    rw [head_split_itemOf hcomma] at hname
    exact Option.some.inj hname
  have hline := (oneLine_itemOf _ _).mp (hone _ (List.mem_map_of_mem he))
  rw [hsame] at hcomma hline
  exact ⟨hcomma, hline, (Utf8.transcoded_eq_iff e.1).mp hsame⟩

/-- The list survives any number of reloads exactly if a line can carry each id. -/
theorem camera_list_survives (entered : List (Str × Nat)) : (∀ ts, Survives entered ts) ↔ ∀ e ∈ entered, Carried e.1 := by
  constructor
  · intro h
    obtain ⟨f, hf, hn⟩ := h []
    rw [← Option.some.inj hf] at hn
    exact carried_of_names hn
  · intro h ts
    have hc : ∀ id ∈ entered.map Prod.fst, Carried id := fun id hid => by
      obtain ⟨e, he, rfl⟩ := List.mem_map.mp hid
      exact h e he
    obtain ⟨f, hf, hs⟩ := Stored.reloads hc ⟨entered, content_addCameras entered, rfl⟩ ts
    refine ⟨f, hf, ?_⟩
    rw [hs.names hc, List.map_map]
    rfl

/-- `a,b` is read back as `a`; the id of a comma, a line end and `b` lets the first
reload fail, and nothing is left of the list. -/
theorem camera_list_lost :
    (readFileFromData (addCameras [(str "a,b".toList, 7)])).map getCameraName = [some (str ['a'])] ∧
      reloadCameraList (fun _ => 8) (addCameras [(str ",\nb".toList, 7)]) = (none, false) ∧
      ¬ Survives [(str "a,b".toList, 7)] [] ∧ ¬ Survives [(str ",\nb".toList, 7)] [fun _ => 8] := by
  have hcut : (readFileFromData (addCameras [(str "a,b".toList, 7)])).map getCameraName = [some (str ['a'])] := by decide +kernel
  have hfail : reloadCameraList (fun _ => 8) (addCameras [(str ",\nb".toList, 7)]) = (none, false) := by decide +kernel
  refine ⟨hcut, hfail, fun ⟨f, hf, hn⟩ => ?_, fun ⟨f, hf, _⟩ => ?_⟩
  · rw [← Option.some.inj hf, hcut] at hn
    exact absurd hn (by decide)
  · rw [reloads, hfail] at hf
    cases hf

end XH.Proof.App
