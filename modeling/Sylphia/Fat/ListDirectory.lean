import Sylphia.Fat.EnsureDirectory

/-!
# What a listing shows

`ListDirectory` prints an entry with the blanks of its name taken out and a dot before the
extension. `IsNameEqual` puts the blanks back. A directory is printed without its extension.
-/

namespace Sylphia

open Bytes Chain FAT32Driver

/-- The calls of `kprintf`. -/
inductive Output
  | text (s : String)
  /-- With the format `"%d "`. -/
  | number (v : Nat)
  /-- With the format `"%s\n"`. -/
  | name (cs : List Byte)
  deriving DecidableEq, Repr

/-- `name_buf`, up to the NUL. -/
def listedName (e : DirectoryEntry) : List Byte :=
  let base := (e.name.take 8).filter (· ≠ 0x20#8)
  let nameBuf :=
    if e.isDirectory = false ∧ e.name.getD 8 0 ≠ 0x20#8 then
      base ++ 0x2E#8 :: (e.name.drop 8).filter (· ≠ 0x20#8)
    else base
  nameBuf.takeWhile (· ≠ 0)

/-- The line of an entry. -/
def listEntry (e : DirectoryEntry) : List Output :=
  [.text (if e.isDirectory then "DIR      " else "FILE     "), .number e.fileSize] ++
  (if e.fileSize < 1000000 then [.text " "] else []) ++
  (if e.fileSize < 1000 then [.text "   "] else []) ++
  [.name (listedName e)]

/-- The loop over the slots of a buffer, from the `i`-th on. -/
def listSlots (buf : Buffer) : Nat → Nat → List Output
  | 0, _ => []
  | n + 1, i =>
    let e := dirEntry buf i
    if e.first = 0 then []
    else if e.first = 0xE5#8 then listSlots buf n (i + 1)
    else if e.attr = 0x0F#8 then listSlots buf n (i + 1)
    else listEntry e ++ listSlots buf n (i + 1)

namespace FAT32Driver

/-- The loop of `ListDirectory` over the clusters of a directory; `none` is an endless loop. -/
def listLoop (fs : FAT32Driver) (dev : BlockDevice) : Nat → Nat → Option (List Output)
  | 0, _ => none
  | n + 1, current =>
    if current < endOfChain then
      (listLoop fs dev n (fs.getNextCluster dev current)).map
        (listSlots (BlockDevice.read dev (fs.clusterToLBA current)) fs.slotsPerCluster 0 ++ ·)
    else some []

/-- `ListDirectory`. -/
def listDirectory (fs : FAT32Driver) (dev : BlockDevice) (cluster : Nat) : Option (List Output) :=
  (fs.listLoop dev loopBound (fs.directoryOf cluster)).map
    ([.text "Type     Size       Name\n", .text "----     ----       ----\n"] ++ ·)

end FAT32Driver

section Listing

variable {fs : FAT32Driver} {dev : BlockDevice} {V : View} {d c i n : Nat} {ds : List Nat}
  {ss : List Slot}

theorem live_of_ended (h : V.Ended ss) : V.live ss = ss.filter fun s => (V.entry s).isLive := by
  induction ss with
  | nil => rfl
  | cons s ss ih =>
    obtain ⟨hs, hss⟩ := List.pairwise_cons.mp h
    rw [live_cons fun h0 t ht => hs t ht h0, ih hss, List.filter_cons]
    split <;> rfl

/-- The live entries among the slots of a buffer are listed. -/
theorem listSlots_eq {buf : Buffer}
    (hbuf : ∀ j, i ≤ j → j < i + n → dirEntry buf j = V.entry ⟨c, j⟩)
    (hended : V.Ended ((List.range' i n).map (Slot.mk c))) :
    listSlots buf n i =
      (V.live ((List.range' i n).map (Slot.mk c))).flatMap fun s => listEntry (V.entry s) := by
  induction n generalizing i with
  | zero => rfl
  | succ n ih =>
    have he := hbuf i le_rfl (by omega)
    rw [List.range'_succ, List.map_cons] at hended ⊢
    obtain ⟨hs, hss⟩ := List.pairwise_cons.mp hended
    have hrest := ih (fun j hj hlt => hbuf j (by omega) (by omega)) hss
    rw [listSlots, he, live_cons fun h0 t ht => hs t ht h0, List.flatMap_append, ← hrest]
    by_cases h0 : (V.entry ⟨c, i⟩).first = 0
    · -- Behind the end mark nothing is live.
      have hnone := live_of_zero fun t ht => hs t ht h0
      rw [if_pos h0, hrest, hnone]
      simp [DirectoryEntry.isLive, h0]
    · rw [if_neg h0]
      by_cases hlive : (V.entry ⟨c, i⟩).isLive = true
      · have hparts := hlive
        rw [DirectoryEntry.isLive, Bool.and_eq_true, Bool.and_eq_true, bne_iff_ne, bne_iff_ne,
          bne_iff_ne] at hparts
        rw [if_neg hparts.1.2, if_neg hparts.2, if_pos hlive, List.flatMap_singleton]
      · rw [if_neg hlive, List.flatMap_nil, List.nil_append]
        rw [DirectoryEntry.isLive, Bool.and_eq_true, Bool.and_eq_true, bne_iff_ne, bne_iff_ne,
          bne_iff_ne] at hlive
        by_cases h5 : (V.entry ⟨c, i⟩).first = 0xE5#8
        · rw [if_pos h5]
        · rw [if_neg h5, if_pos (not_not.mp fun hattr => hlive ⟨⟨h0, h5⟩, hattr⟩)]

theorem live_slots_cons (h : V.Ended (fs.slots (c :: ds))) :
    V.live (fs.slots (c :: ds)) =
      V.live ((List.range' 0 fs.slotsPerCluster).map (Slot.mk c)) ++ V.live (fs.slots ds) := by
  have happ : fs.slots (c :: ds) = _ ++ fs.slots ds := slots_cons fs c ds
  rw [live_of_ended h, happ, List.filter_append]
  rw [happ] at h
  obtain ⟨hfirst, hrest, -⟩ := List.pairwise_append.mp h
  rw [live_of_ended hfirst, live_of_ended hrest]

/-- The live entries of a directory are listed, in the order of their slots. -/
theorem listLoop_eq (hc : ClusterChain fs (fs.view dev.store) d ds)
    (hended : (fs.view dev.store).Ended (fs.slots ds)) (hn : ds.length < n) :
    fs.listLoop dev n d = some (((fs.view dev.store).live (fs.slots ds)).flatMap fun s =>
      listEntry ((fs.view dev.store).entry s)) := by
  have hslots {c : Nat} (h2 : 2 ≤ c) (h32 : c < 2 ^ 32)
      (he : (fs.view dev.store).Ended ((List.range' 0 fs.slotsPerCluster).map (Slot.mk c))) :=
    @listSlots_eq (fs.view dev.store) c 0 fs.slotsPerCluster
      (BlockDevice.read dev (fs.clusterToLBA c))
      (fun j _ hj => dirEntry_read dev h2 h32 (by omega)) he
  induction hc generalizing n with
  | @last c hv hends =>
    obtain ⟨n, rfl⟩ : ∃ m, n = m + 2 := ⟨n - 2, by simp at hn; omega⟩
    have hend : ¬fs.getNextCluster dev c < endOfChain := by
      rw [getNextCluster_eq dev hv.2.1]
      exact Nat.not_lt.mpr hends
    have hfirst := (List.pairwise_append.mp ((slots_cons fs c []) ▸ hended)).1
    rw [listLoop, if_pos hv.2.2, listLoop, if_neg hend, live_slots_cons hended,
      hslots hv.1 (hv.2.2.trans (by decide)) hfirst]
    simp [slots, View.live]
  | @cons c cs hv hrest ih =>
    obtain ⟨n, rfl⟩ : ∃ m, n = m + 1 := ⟨n - 1, by simp at hn; omega⟩
    obtain ⟨hfirst, hbehind, -⟩ := List.pairwise_append.mp ((slots_cons fs c cs) ▸ hended)
    rw [listLoop, if_pos hv.2.2, getNextCluster_eq dev hv.2.1, ← View.next,
      ih hbehind (by simpa using hn), live_slots_cons hended,
      hslots hv.1 (hv.2.2.trans (by decide)) hfirst, List.flatMap_append, Option.map_some]

/-- `ListDirectory` of a directory of a sound volume. -/
theorem listDirectory_eq (hv : SoundVolume fs (fs.view dev.store))
    (hd : IsDirectory fs (fs.view dev.store) (fs.directoryOf d))
    (hc : ClusterChain fs (fs.view dev.store) (fs.directoryOf d) ds) :
    fs.listDirectory dev d = some
      ([.text "Type     Size       Name\n", .text "----     ----       ----\n"] ++
        ((fs.view dev.store).live (fs.slots ds)).flatMap fun s =>
          listEntry ((fs.view dev.store).entry s)) := by
  rw [listDirectory, listLoop_eq hc (hv.ended _ ds hd hc) hc.length_lt, Option.map_some]

end Listing

/-- A character of a name without blanks. -/
def PlainChar (c : Byte) : Prop := c ≠ 0x20#8 ∧ c ≠ 0x2E#8 ∧ c ≠ 0x2F#8 ∧ c ≠ 0

instance (c : Byte) : Decidable (PlainChar c) := inferInstanceAs (Decidable (_ ∧ _))

/-- The base alone, or the base and the extension with a dot between them. -/
def dotted (base ext : List Byte) : List Byte := if ext = [] then base else base ++ 0x2E#8 :: ext

section Names

variable {base ext cs : List Byte} {n : Nat}

theorem toUpper_plain {c : Byte} (h : PlainChar c) : PlainChar (toUpper c) := by
  revert c
  decide

/-- Without its blanks a padded part is what it was. -/
theorem filter_padTo (h : ∀ c ∈ cs, PlainChar c) (n : Nat) :
    (padTo n cs).filter (· ≠ 0x20#8) = cs := by
  rw [padTo, List.filter_append, List.filter_eq_self.mpr fun c hc => by simpa using (h c hc).1]
  simp

theorem takeWhile_dot (h : ∀ c ∈ base, PlainChar c) (rest : List Byte) :
    (base ++ 0x2E#8 :: rest).takeWhile (· ≠ 0x2E#8) = base ∧
      (base ++ 0x2E#8 :: rest).dropWhile (· ≠ 0x2E#8) = 0x2E#8 :: rest := by
  have hall : ∀ c ∈ base, decide (c ≠ 0x2E#8) = true := fun c hc => by simpa using (h c hc).2.1
  rw [List.takeWhile_append_of_pos hall, List.dropWhile_append_of_pos hall]
  simp

theorem to83Format_dotted (h : ∀ c ∈ base, PlainChar c) (h8 : base.length ≤ 8)
    (h3 : ext.length ≤ 3) :
    to83Format (dotted base ext) = padTo 8 (base.map toUpper) ++ padTo 3 (ext.map toUpper) := by
  rw [dotted, to83Format]
  by_cases hext : ext = []
  · have hall : ∀ c ∈ base, decide (c ≠ 0x2E#8) = true := fun c hc => by simpa using (h c hc).2.1
    rw [if_pos hext, List.takeWhile_eq_self_iff.mpr hall, List.dropWhile_eq_nil_iff.mpr hall, hext,
      List.take_of_length_le h8]
    rfl
  · rw [if_neg hext, (takeWhile_dot h ext).1, (takeWhile_dot h ext).2, List.drop_one,
      List.tail_cons,
      List.take_of_length_le h8, List.take_of_length_le h3]

theorem plain_map_toUpper (h : ∀ c ∈ cs, PlainChar c) : ∀ c ∈ cs.map toUpper, PlainChar c := by
  rw [List.forall_mem_map]
  exact fun c hc => toUpper_plain (h c hc)

/-- The conversion of a name that is dotted already. -/
theorem convertName_dotted (h : ∀ c ∈ base, PlainChar c) (h8 : base.length ≤ 8)
    (h3 : ext.length ≤ 3) :
    convertName (dotted base ext) = padTo 8 (base.map toUpper) ++ padTo 3 (ext.map toUpper) := by
  rw [← to83Format_dotted h h8 h3, convertName, if_neg, to83Format]
  rintro ⟨hlen, hdot⟩
  rw [dotted] at hlen hdot
  split at hlen
  · omega
  · next hext =>
    rw [if_neg hext] at hdot
    exact hdot (by simp)

/-- The name that is printed for an entry. -/
theorem listedName_eq {e : DirectoryEntry} (hbase : ∀ c ∈ base, PlainChar c)
    (hext : ∀ c ∈ ext, PlainChar c) (h8 : base.length ≤ 8)
    (hname : e.name = padTo 8 base ++ padTo 3 ext) :
    listedName e = if e.isDirectory then base else dotted base ext := by
  have hlen : (padTo 8 base).length = 8 := by
    rw [padTo, List.length_append, List.length_replicate]
    omega
  have htake : e.name.take 8 = padTo 8 base := by
    rw [hname, List.take_append_of_le_length hlen.ge, List.take_of_length_le hlen.le]
  have hdrop : e.name.drop 8 = padTo 3 ext := by
    rw [hname, List.drop_append_of_le_length hlen.ge, List.drop_of_length_le hlen.le,
      List.nil_append]
  have hfirst : e.name.getD 8 0 ≠ 0x20#8 ↔ ext ≠ [] := by
    have hget : e.name.getD 8 0 = (padTo 3 ext).getD 0 0 := by
      rw [← hdrop, List.getD_eq_getElem?_getD, List.getD_eq_getElem?_getD, List.getElem?_drop]
    rw [hget]
    cases ext with
    | nil => decide
    | cons c cs => simpa [padTo] using (hext c (List.mem_cons_self ..)).1
  have hall (cs : List Byte) (hcs : ∀ c ∈ cs, c ≠ 0) : cs.takeWhile (· ≠ 0) = cs :=
    List.takeWhile_eq_self_iff.mpr fun c hc => by simpa using hcs c hc
  rw [listedName, htake, hdrop, filter_padTo hbase, filter_padTo hext]
  simp only [hfirst, dotted]
  cases e.isDirectory with
  | true =>
    simp only [Bool.true_eq_false, false_and, if_false, if_true]
    exact hall base fun c hc => (hbase c hc).2.2.2
  | false =>
    simp only [true_and, ite_not, Bool.false_eq_true, if_false]
    refine hall _ fun c hc => ?_
    split at hc
    · exact (hbase c hc).2.2.2
    · rcases List.mem_append.mp hc with hc | hc
      · exact (hbase c hc).2.2.2
      · rcases List.mem_cons.mp hc with rfl | hc
        · decide
        · exact (hext c hc).2.2.2

theorem padTo_blank_iff (h : ∀ c ∈ ext, PlainChar c) : padTo 3 [] = padTo 3 ext ↔ ext = [] := by
  constructor
  · intro heq
    rw [← filter_padTo h 3, ← heq]
    rfl
  · rintro rfl
    rfl

end Names

/-- The name that `ListDirectory` prints for an entry matches it, except for a directory with an
extension. -/
theorem listed_name_matches_iff (base ext : List Byte) (hchars : ∀ c ∈ base ++ ext, PlainChar c)
    (h8 : base.length ≤ 8) (h3 : ext.length ≤ 3) (e : DirectoryEntry)
    (hname : e.name = to83Format (dotted base ext)) :
    isNameEqual e.name (listedName e) = true ↔ ¬(e.isDirectory = true ∧ ext ≠ []) := by
  rw [List.forall_mem_append] at hchars
  obtain ⟨hbase, hext⟩ := hchars
  have hbase' := plain_map_toUpper hbase
  have hext' := plain_map_toUpper hext
  have hmap (cs : List Byte) : (cs.map toUpper).map toUpper = cs.map toUpper := by
    rw [List.map_map]
    exact List.map_congr_left fun c _ => toUpper_toUpper c
  have hback (x : List Byte) (hx : x.length ≤ 3) :
      convertName (dotted (base.map toUpper) x) =
        padTo 8 (base.map toUpper) ++ padTo 3 (x.map toUpper) := by
    rw [convertName_dotted hbase' (by simpa using h8) hx, hmap]
  rw [to83Format_dotted hbase h8 h3] at hname
  rw [isNameEqual, beq_iff_eq, listedName_eq hbase' hext' (by simpa using h8) hname, hname]
  cases e.isDirectory with
  | false =>
    rw [if_neg (by simp), hback _ (by simpa using h3), hmap]
    simp
  | true =>
    have hblank := hback [] (Nat.zero_le _)
    rw [dotted, if_pos rfl, List.map_nil] at hblank
    rw [if_pos rfl, hblank, List.append_right_inj, eq_comm, padTo_blank_iff hext',
      List.map_eq_nil_iff]
    simp

/-- The file `a.b` is printed as `A.B`. -/
theorem listed_name_matches_file :
    isNameEqual (DirectoryEntry.create (to83Format [0x61#8, 0x2E#8, 0x62#8]) 3 1 0x20#8).name
      (listedName (.create (to83Format [0x61#8, 0x2E#8, 0x62#8]) 3 1 0x20#8)) = true :=
  (listed_name_matches_iff [0x61#8] [0x62#8] (by decide) (by decide) (by decide) _
    (by decide)).mpr (by decide)

/-- The directory `a.b` is printed as `A`, and nothing is found under that name. -/
theorem listed_name_lost :
    let dev := (smallVolume.ensureDirectory ⟨blankDisk, []⟩ [0x61#8, 0x2E#8, 0x62#8]).2
    smallVolume.listDirectory dev 0 = some
        [.text "Type     Size       Name\n", .text "----     ----       ----\n",
          .text "DIR      ", .number 0, .text " ", .text "   ", .name [0x41#8]] ∧
      smallVolume.findDirectoryEntry dev [0x41#8] 0 = none ∧
      ((smallVolume.findDirectoryEntry dev [0x61#8, 0x2E#8, 0x62#8] 0).map fun e =>
        (e.isDirectory, isNameEqual e.name (listedName e))) = some (true, false) := by
  decide +kernel

end Sylphia
