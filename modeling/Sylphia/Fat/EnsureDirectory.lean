import Mathlib.Data.List.TakeWhile
import Sylphia.Fat.Paths

/-!
# A directory that was made is found again

`EnsureDirectory` and `GetDirectoryCluster` follow a path each with a loop of its own. Both
get from one component to the next by `FindDirectoryEntry`, and neither sees the case of a
letter. What they agree on is the way from directory to directory.
-/

namespace Sylphia

open Bytes WriteLog Chain FAT32Driver

section Upper

variable {fs : FAT32Driver} {dev : BlockDevice} {name name' path path' : List Byte} {n d : Nat}

@[simp] theorem toUpper_toUpper (c : Byte) : toUpper (toUpper c) = toUpper c := by
  revert c
  decide

theorem toUpper_eq_dot (c : Byte) : toUpper c = 0x2E#8 ↔ c = 0x2E#8 := by
  revert c
  decide

theorem toUpper_eq_slash (c : Byte) : toUpper c = 0x2F#8 ↔ c = 0x2F#8 := by
  revert c
  decide

private theorem dot_upper : (fun c : Byte => decide (c ≠ 0x2E#8)) ∘ toUpper =
    fun c : Byte => decide (c ≠ 0x2E#8) := by
  funext c
  exact decide_eq_decide.mpr (not_congr (toUpper_eq_dot c))

private theorem slash_upper : (fun c : Byte => decide (c ≠ 0x2F#8)) ∘ toUpper =
    fun c : Byte => decide (c ≠ 0x2F#8) := by
  funext c
  exact decide_eq_decide.mpr (not_congr (toUpper_eq_slash c))

private theorem map_toUpper_map (cs : List Byte) :
    (cs.map toUpper).map toUpper = cs.map toUpper := by
  rw [List.map_map]
  exact List.map_congr_left fun c _ => toUpper_toUpper c

theorem to83Format_upper (name : List Byte) :
    to83Format (name.map toUpper) = to83Format name := by
  simp only [to83Format, List.takeWhile_map, List.dropWhile_map, dot_upper, ← List.map_take,
    ← List.map_drop, map_toUpper_map]

theorem convertName_upper (name : List Byte) :
    convertName (name.map toUpper) = convertName name := by
  have hdot : 0x2E#8 ∉ name.map toUpper ↔ 0x2E#8 ∉ name := by
    simp only [List.mem_map, toUpper_eq_dot, exists_eq_right]
  have h83 := to83Format_upper name
  rw [to83Format, to83Format] at h83
  simp only [convertName, List.length_map, hdot, map_toUpper_map, h83]

theorem segment_upper (path : List Byte) :
    segment (path.map toUpper) = (segment path).map toUpper := by
  rw [segment, segment, List.takeWhile_map, slash_upper, ← List.map_take]

theorem head?_upper (path : List Byte) :
    (path.map toUpper).head? = some 0x2F#8 ↔ path.head? = some 0x2F#8 := by
  cases path with
  | nil => simp
  | cons c cs => simp [toUpper_eq_slash]

theorem behind_upper (path : List Byte) :
    behind (path.map toUpper) = (behind path).map toUpper := by
  rw [behind, behind]
  simp only [segment_upper, List.length_map, ← List.map_drop, head?_upper]
  split <;> rfl

/-- A search sees of a name what `IsNameEqual` compares with. -/
theorem findSlot_congr (h : convertName name' = convertName name) :
    fs.findSlot dev name' d = fs.findSlot dev name d := by
  have hequal (e : List Byte) : isNameEqual e name' = isNameEqual e name := by
    rw [isNameEqual, isNameEqual, h]
  have hscan (buf : Buffer) (n i : Nat) : scanSlots buf name' n i = scanSlots buf name n i := by
    induction n generalizing i with
    | zero => rfl
    | succ n ih => simp only [scanSlots, hequal, ih]
  rw [findSlot, findSlot]
  generalize fs.directoryOf d = current
  induction 10001 generalizing current with
  | zero => rfl
  | succ n ih => simp only [findLoop, hscan, ih]

theorem findDirectoryEntry_upper (name : List Byte) :
    fs.findDirectoryEntry dev (name.map toUpper) d = fs.findDirectoryEntry dev name d := by
  rw [findDirectoryEntry, findDirectoryEntry, findSlot_congr (convertName_upper name)]

theorem ensureLoop_upper :
    fs.ensureLoop n dev (path.map toUpper) d = fs.ensureLoop n dev path d := by
  induction n generalizing dev path d with
  | zero => rfl
  | succ n ih =>
    simp only [ensureLoop_succ, segment_upper, behind_upper, List.map_eq_nil_iff,
      findDirectoryEntry_upper, to83Format_upper, ih]

/-- One round of `GetFileEntry`. -/
theorem resolveLoop_succ : fs.resolveLoop dev (n + 1) path d =
    if path = [] then none
    else
      match fs.findSlot dev (segment path) d with
      | none => none
      | some s =>
        if path.drop (segment path).length = [] then some s
        else if !(fs.slotEntry dev s).isDirectory then none
        else fs.resolveLoop dev n (behind path)
          (fs.directoryOf (fs.slotEntry dev s).firstCluster) := by
  rw [resolveLoop]
  rfl

theorem resolveLoop_upper :
    fs.resolveLoop dev n (path.map toUpper) d = fs.resolveLoop dev n path d := by
  induction n generalizing path d with
  | zero => rfl
  | succ n ih =>
    simp only [resolveLoop_succ, segment_upper, behind_upper, List.map_eq_nil_iff, List.length_map,
      findSlot_congr (convertName_upper _), ← List.map_drop, ih]

private theorem start_upper (path : List Byte) :
    (if (path.map toUpper).head? = some 0x2F#8 then (path.map toUpper).drop 1
      else path.map toUpper) =
      (if path.head? = some 0x2F#8 then path.drop 1 else path).map toUpper := by
  simp only [head?_upper, ← List.map_drop]
  split <;> rfl

/-- `EnsureDirectory` does not see the case of a letter. -/
theorem ensureDirectory_upper (h : path'.map toUpper = path.map toUpper) :
    fs.ensureDirectory dev path' = fs.ensureDirectory dev path := by
  have hone (p : List Byte) : fs.ensureDirectory dev p =
      fs.ensureLoop (p.map toUpper).length dev
        (if (p.map toUpper).head? = some 0x2F#8 then (p.map toUpper).drop 1 else p.map toUpper)
        fs.rootClus := by
    rw [ensureDirectory, start_upper, ensureLoop_upper, List.length_map]
  rw [hone, hone, h]

/-- `GetFileEntry` does not see the case of a letter. -/
theorem getFileEntry_upper (h : path'.map toUpper = path.map toUpper) :
    fs.getFileEntry dev path' d = fs.getFileEntry dev path d := by
  have hone (p : List Byte) : fs.resolve dev (p.map toUpper) d = fs.resolve dev p d := by
    rw [resolve, resolve]
    simp only [head?_upper, List.length_map, ← List.map_drop, resolveLoop_upper]
  rw [getFileEntry, getFileEntry, ← hone path', ← hone path, h]

private theorem eq_singleton_upper {c : Byte} (hc : ∀ x, toUpper x = c ↔ x = c) :
    path = [c] ↔ path.map toUpper = [c] := by
  simp only [List.map_eq_singleton_iff, hc, exists_eq_right]

theorem getDirectoryCluster_upper (h : path'.map toUpper = path.map toUpper) :
    fs.getDirectoryCluster dev path' d = fs.getDirectoryCluster dev path d := by
  have hnil : path' = [] ↔ path = [] := by
    rw [← List.map_eq_nil_iff (f := toUpper), h, List.map_eq_nil_iff]
  have hslash : path' = [0x2F#8] ↔ path = [0x2F#8] := by
    rw [eq_singleton_upper toUpper_eq_slash, h, ← eq_singleton_upper toUpper_eq_slash]
  have hdot : path' = [0x2E#8] ↔ path = [0x2E#8] := by
    rw [eq_singleton_upper toUpper_eq_dot, h, ← eq_singleton_upper toUpper_eq_dot]
  simp only [getDirectoryCluster, hnil, hslash, hdot, getFileEntry_upper h]

end Upper

/-- A character of a base or of an extension. -/
def NameChar (c : Byte) : Prop := c ≠ 0x2E#8 ∧ c ≠ 0x2F#8 ∧ c ≠ 0 ∧ c ≠ 0xE5#8

instance (c : Byte) : Decidable (NameChar c) := inferInstanceAs (Decidable (_ ∧ _))

/-- A base of one to eight characters, and an extension of one to three if there is a dot. -/
def Component (name : List Byte) : Prop :=
  ∃ base ext : List Byte, (∀ c ∈ base ++ ext, NameChar c) ∧ 1 ≤ base.length ∧ base.length ≤ 8 ∧
    (name = base ∨ name = base ++ 0x2E#8 :: ext ∧ 1 ≤ ext.length ∧ ext.length ≤ 3)

/-- The components with a slash between any two of them. -/
def joinPath (comps : List (List Byte)) : List Byte := List.intercalate [0x2F#8] comps

/-- A path of one or more components, with or without a slash before them. -/
structure IsPath (comps : List (List Byte)) (path : List Byte) : Prop where
  components : ∀ x ∈ comps, Component x
  nonempty : comps ≠ []
  joined : path = joinPath comps ∨ path = 0x2F#8 :: joinPath comps

section Components

variable {x name : List Byte} {xs comps : List (List Byte)}

namespace Component

variable (h : Component name)
include h

theorem ne_nil : name ≠ [] := by
  obtain ⟨base, ext, -, hpos, -, rfl | ⟨rfl, -⟩⟩ := h
  · exact List.ne_nil_of_length_pos hpos
  · simp

theorem head?_ne : name.head? ≠ some 0x2E#8 := by
  obtain ⟨base, ext, hchars, hpos, -, hname⟩ := h
  obtain ⟨b, bs, rfl⟩ := List.exists_cons_of_length_pos hpos
  have hb : NameChar b := hchars b (by simp)
  rcases hname with rfl | ⟨rfl, -⟩ <;> simpa using hb.1

theorem length_le : name.length ≤ 12 := by
  obtain ⟨base, ext, -, -, hbase, rfl | ⟨rfl, -, hext⟩⟩ := h
  · omega
  · rw [List.length_append, List.length_cons]
    omega

theorem slash_not_mem : 0x2F#8 ∉ name := by
  obtain ⟨base, ext, hchars, -, -, rfl | ⟨rfl, -⟩⟩ := h
  · exact fun hmem => (hchars _ (List.mem_append_left _ hmem)).2.1 rfl
  · intro hmem
    rw [List.mem_append, List.mem_cons] at hmem
    rcases hmem with hmem | hmem | hmem
    · exact (hchars _ (List.mem_append_left _ hmem)).2.1 rfl
    · exact absurd hmem (by decide)
    · exact (hchars _ (List.mem_append_right _ hmem)).2.1 rfl

/-- The two conversions of a name agree on a component. -/
theorem convertName_eq : convertName name = to83Format name := by
  rw [convertName, if_neg, to83Format]
  rintro ⟨hlen, hdot⟩
  obtain ⟨base, ext, -, -, hbase, rfl | ⟨rfl, -⟩⟩ := h
  · omega
  · exact hdot (by simp)

theorem startsName : StartsName (to83Format name) := by
  obtain ⟨base, ext, hchars, hpos, -, hname⟩ := h
  obtain ⟨b, bs, rfl⟩ := List.exists_cons_of_length_pos hpos
  have hb : NameChar b := hchars b (by simp)
  have hhead : (to83Format name).getD 0 0 = toUpper b := by
    rcases hname with rfl | ⟨rfl, -⟩
    · simp [to83Format, padTo, hb.1]
    · simp [to83Format, padTo, hb.1]
  rw [StartsName, hhead]
  clear hhead hname hchars hpos
  revert b
  decide

end Component

theorem joinPath_cons (x : List Byte) (hxs : xs ≠ []) :
    joinPath (x :: xs) = x ++ 0x2F#8 :: joinPath xs := by
  obtain ⟨y, ys, rfl⟩ := List.exists_cons_of_ne_nil hxs
  simp [joinPath, List.intercalate_cons_cons]

theorem joinPath_singleton (x : List Byte) : joinPath [x] = x := by simp [joinPath]

section Segments

variable (hx : Component x) (xs : List (List Byte))
include hx

theorem segment_joinPath : segment (joinPath (x :: xs)) = x := by
  have hall : ∀ c ∈ x, decide (c ≠ 0x2F#8) = true := by
    intro c hc
    rw [decide_eq_true_iff]
    rintro rfl
    exact hx.slash_not_mem hc
  have hlen := hx.length_le
  by_cases hxs : xs = []
  · rw [hxs, joinPath_singleton, segment, List.takeWhile_eq_self_iff.mpr hall,
      List.take_of_length_le (by omega)]
  · rw [joinPath_cons x hxs, segment, List.takeWhile_append_of_pos hall, List.takeWhile_cons,
      if_neg (by simp), List.append_nil, List.take_of_length_le (by omega)]

theorem drop_joinPath : (joinPath (x :: xs)).drop (segment (joinPath (x :: xs))).length =
    if xs = [] then [] else 0x2F#8 :: joinPath xs := by
  rw [segment_joinPath hx xs]
  split_ifs with hxs
  · rw [hxs, joinPath_singleton, List.drop_length]
  · rw [joinPath_cons x hxs, List.drop_left]

theorem behind_joinPath : behind (joinPath (x :: xs)) = joinPath xs := by
  rw [behind, drop_joinPath hx xs]
  by_cases hxs : xs = []
  · rw [if_pos hxs, hxs]
    rfl
  · rw [if_neg hxs, List.head?_cons, if_pos rfl]
    rfl

theorem joinPath_ne_nil : joinPath (x :: xs) ≠ [] := by
  intro hnil
  have hseg := segment_joinPath hx xs
  rw [hnil] at hseg
  exact hx.ne_nil hseg.symm

end Segments

/-- There are more characters than components. -/
theorem length_le_joinPath (h : ∀ x ∈ comps, Component x) :
    comps.length ≤ (joinPath comps).length := by
  induction comps with
  | nil => exact Nat.zero_le _
  | cons x xs ih =>
    rw [List.forall_mem_cons] at h
    have hx := List.length_pos_of_ne_nil h.1.ne_nil
    by_cases hxs : xs = []
    · rw [hxs, joinPath_singleton]
      exact hx
    · have := ih h.2
      rw [joinPath_cons x hxs, List.length_append, List.length_cons, List.length_cons]
      omega

end Components

/-- The components lead from one directory to another. -/
def Leads (fs : FAT32Driver) (dev : BlockDevice) : List (List Byte) → Nat → Nat → Prop
  | [], d, c => d = c
  | x :: xs, d, c => ∃ e, fs.findDirectoryEntry dev x d = some e ∧ e.isDirectory = true ∧
      Leads fs dev xs e.firstCluster c

/-- As far as there are entries for the components, they are those of directories. -/
def NoFile (fs : FAT32Driver) (dev : BlockDevice) : List (List Byte) → Nat → Prop
  | [], _ => True
  | x :: xs, d => ∀ e, fs.findDirectoryEntry dev x d = some e →
      e.isDirectory = true ∧ NoFile fs dev xs e.firstCluster

/-- There is a slot for the first component that is missing, and a free cluster for each one
that is. -/
def RoomFor (fs : FAT32Driver) (dev : BlockDevice) : List (List Byte) → Nat → Prop
  | [], _ => True
  | x :: xs, d =>
    match fs.findDirectoryEntry dev x d with
    | some e => RoomFor fs dev xs e.firstCluster
    | none => FreeSlot fs (fs.view dev.store) (fs.directoryOf d) ∧
        xs.length + 1 ≤ (fs.view dev.store).freeClusters.length

section Walkers

variable {fs : FAT32Driver} {dev dev' : BlockDevice} {comps : List (List Byte)} {n c d : Nat}

/-- `EnsureDirectory` goes the way that there is. -/
theorem Leads.ensureLoop (h : Leads fs dev comps d c) (hcomps : ∀ x ∈ comps, Component x)
    (hn : comps.length ≤ n) : fs.ensureLoop n dev (joinPath comps) d = (c, dev) := by
  induction comps generalizing n d with
  | nil =>
    rw [show d = c from h]
    cases n <;> rfl
  | cons x xs ih =>
    obtain ⟨m, rfl⟩ : ∃ m, n = m + 1 := ⟨n - 1, by simp at hn; omega⟩
    rw [List.forall_mem_cons] at hcomps
    obtain ⟨e, hfind, hdir, hrest⟩ := h
    rw [ensureLoop_succ, segment_joinPath hcomps.1, behind_joinPath hcomps.1,
      if_neg hcomps.1.ne_nil, hfind]
    dsimp only
    rw [if_pos hdir]
    exact ih hrest hcomps.2 (Nat.le_of_succ_le_succ hn)

/-- `GetFileEntry` goes the way that there is, to the entry of the last directory. -/
theorem Leads.resolveLoop (h : Leads fs dev comps d c) (hcomps : ∀ x ∈ comps, Component x)
    (hne : comps ≠ []) (hn : comps.length ≤ n) :
    ∃ s, fs.resolveLoop dev n (joinPath comps) (fs.directoryOf d) = some s ∧
      (fs.slotEntry dev s).isDirectory = true ∧ (fs.slotEntry dev s).firstCluster = c := by
  induction comps generalizing n d with
  | nil => exact absurd rfl hne
  | cons x xs ih =>
    obtain ⟨m, rfl⟩ : ∃ m, n = m + 1 := ⟨n - 1, by simp at hn; omega⟩
    rw [List.forall_mem_cons] at hcomps
    obtain ⟨e, hfind, hdir, hrest⟩ := h
    rw [findDirectoryEntry] at hfind
    obtain ⟨s, hslot, rfl⟩ := Option.map_eq_some_iff.mp hfind
    rw [resolveLoop_succ, drop_joinPath hcomps.1, segment_joinPath hcomps.1,
      behind_joinPath hcomps.1, if_neg (joinPath_ne_nil hcomps.1 xs), findSlot_directoryOf, hslot]
    dsimp only
    by_cases hxs : xs = []
    · subst hxs
      exact ⟨s, rfl, hdir, hrest⟩
    · rw [if_neg hxs, if_neg (by simp), hdir, if_neg (by simp)]
      exact ih hrest hcomps.2 hxs (Nat.le_of_succ_le_succ hn)

/-- What a search finds in a directory, it finds as long as the directories are kept. -/
theorem findDirectoryEntry_kept (hv : SoundVolume fs (fs.view dev.store))
    (hk : Kept fs none (fs.view dev.store) (fs.view dev'.store))
    (hd : IsDirectory fs (fs.view dev.store) (fs.directoryOf d)) {name : List Byte}
    {e : DirectoryEntry} (h : fs.findDirectoryEntry dev name d = some e) :
    fs.findDirectoryEntry dev' name d = some e := by
  obtain ⟨ds, hc⟩ := hv.directory_chain hd
  obtain ⟨-, hc'⟩ := hk.dirs _ ds hd hc
  rw [findDirectoryEntry] at h ⊢
  obtain ⟨s, hslot, rfl⟩ := Option.map_eq_some_iff.mp h
  rw [← findSlot_directoryOf, findSlot_eq hc] at hslot
  have hs := live_subset _ _ s (listed_of_find hd hc hslot).2
  obtain ⟨hslot', hentry⟩ := hk.find _ ds hd hc _ _ s hslot (by simp)
  rw [← findSlot_directoryOf, findSlot_eq hc', hslot', Option.map_some, slotEntry_eq hc' hs,
    slotEntry_eq hc hs, hentry]

/-- The entry of a directory leads to a directory. -/
theorem isDirectory_of_find (hv : SoundVolume fs (fs.view dev.store))
    (hd : IsDirectory fs (fs.view dev.store) (fs.directoryOf d)) {name : List Byte}
    {e : DirectoryEntry} (h : fs.findDirectoryEntry dev name d = some e)
    (hdir : e.isDirectory = true) :
    IsDirectory fs (fs.view dev.store) (fs.directoryOf e.firstCluster) := by
  obtain ⟨ds, hc⟩ := hv.directory_chain hd
  rw [findDirectoryEntry] at h
  obtain ⟨s, hslot, rfl⟩ := Option.map_eq_some_iff.mp h
  rw [← findSlot_directoryOf, findSlot_eq hc] at hslot
  obtain ⟨-, hlive⟩ := listed_of_find hd hc hslot
  rw [slotEntry_eq hc (live_subset _ _ s hlive)] at hdir ⊢
  rw [directoryOf]
  split_ifs with h0
  · exact .root
  · exact .sub hd hc hlive hdir (isDot_of_isNameEqual (name_of_find hslot)) h0

end Walkers

section Create

variable {fs : FAT32Driver} {dev : BlockDevice} {V V' : View} {x name : List Byte} {d : Nat}
  {ds : List Nat} {pre post : List Slot} {s : Slot}

/-- The name of a component that no entry of the directory matches is new there. -/
theorem Component.newName (hx : Component x)
    (habsent : ∀ ds, ClusterChain fs V d ds → ∀ t ∈ V.live (fs.slots ds),
      isNameEqual (V.entry t).name x = false) : FatCall.NewName fs V d (to83Format x) := by
  refine ⟨length_to83Format x, hx.startsName, fun ds hc t ht heq => ?_⟩
  have hno := habsent ds hc t ht
  rw [isNameEqual, hx.convertName_eq, heq, beq_self_eq_true] at hno
  cases hno

theorem WellFormed.newName (h : WellFormed fs dev.store)
    (hd : IsDirectory fs (fs.view dev.store) (fs.directoryOf d)) (hx : Component x)
    (hnone : fs.findDirectoryEntry dev x d = none) :
    FatCall.NewName fs (fs.view dev.store) (fs.directoryOf d) (to83Format x) :=
  hx.newName fun _ hc => h.absent hd hc hnone

/-- Clusters are taken from the free ones. -/
theorem Lengthens.length_freeClusters {new : List Nat} (h : Lengthens fs V V' [] new) :
    V'.freeClusters.length + new.length = V.freeClusters.length := by
  have hnd (X : View) : X.freeClusters.Nodup := (List.nodup_range').filter _
  have hnew : new.Nodup := by
    cases hb : new.head? with
    | none =>
      rw [List.head?_eq_none_iff.mp hb]
      exact List.nodup_nil
    | some b => exact (h.chain b hb).nodup
  have hapart : (V'.freeClusters ++ new).Nodup :=
    List.nodup_append.mpr ⟨hnd V', hnew, fun x hx y hy hxy =>
      h.not_mem (mem_freeClusters.mp hx).2.2 (hxy ▸ hy)⟩
  have hperm : (V'.freeClusters ++ new).Perm V.freeClusters := by
    refine (List.perm_ext_iff_of_nodup hapart (hnd V)).mpr fun x => ?_
    rw [List.mem_append, mem_freeClusters, mem_freeClusters]
    constructor
    · rintro (⟨h2, h128, h0⟩ | hx)
      · exact ⟨h2, h128, h.fat_zero h0⟩
      · exact h.free x hx
    · rintro ⟨h2, h128, h0⟩
      by_cases hx : x ∈ new
      · exact Or.inr hx
      · exact Or.inl ⟨h2, h128, (h.fat x List.not_mem_nil hx).trans h0⟩
  rw [← hperm.length_eq, List.length_append]

/-- What is there when a directory was made: the volume with all its directories, and an empty
one that is found by its name. -/
structure MadeDirectory (fs : FAT32Driver) (dev dev' : BlockDevice) (x : List Byte) (d c : Nat) :
    Prop where
  ne_zero : c ≠ 0
  wellFormed : WellFormed fs dev'.store
  kept : Kept fs none (fs.view dev.store) (fs.view dev'.store)
  directory : IsDirectory fs (fs.view dev'.store) c
  empty : EmptyDirectory fs (fs.view dev'.store) c
  found : Leads fs dev' [x] d c
  slot : FreeSlot fs (fs.view dev'.store) c
  room : (fs.view dev.store).freeClusters.length ≤ (fs.view dev'.store).freeClusters.length + 1

theorem createDirectory_made (hgeo : Geometry fs) (h : WellFormed fs dev.store)
    (hd : IsDirectory fs (fs.view dev.store) (fs.directoryOf d)) (hx : Component x)
    (hnone : fs.findDirectoryEntry dev x d = none)
    (hslot : FreeSlot fs (fs.view dev.store) (fs.directoryOf d))
    (hroom : 1 ≤ (fs.view dev.store).freeClusters.length) :
    ∃ c dev', fs.createDirectory dev (to83Format x) d = (c, dev') ∧
      MadeDirectory fs dev dev' x d c := by
  have hname := h.newName hd hx hnone
  have hdot := not_dotName_to83Format x
  have hwell := h.createDirectory hgeo hd hname hdot (Or.inr hslot)
  have hkept := (createDirectory_kept hgeo h.sound hd hname).2
  rcases @createDirectory_cases fs dev (to83Format x) d hgeo with
    ⟨-, hfull⟩ | ⟨c, dev₁, hg, -, hdata, heq⟩
  · rw [diskFull_iff.mp hfull] at hroom
    cases hroom
  rw [heq] at hwell hkept
  refine ⟨c, _, heq, ?_⟩
  obtain ⟨hv₁, hsame, -⟩ := hg.within.frame_none h.sound
  obtain ⟨h2, -, -, h32⟩ := hg.lt (show c ∈ [] ++ [c] by simp)
  obtain ⟨ds, hc, ⟨-, hfull⟩ | ⟨i, -, -, hpub⟩⟩ := addEntry_cases hgeo h.sound hg hd hname rfl
    (fun _ => dotEntries_empty hdata) 0
  · obtain ⟨j, hj, hfree⟩ := hslot
    rw [hfull j hj] at hfree
    cases hfree
  obtain ⟨pre, post, hchange⟩ := hpub.change
  have hfat : (fs.view (fs.addDirectoryEntry dev₁ (to83Format x) c 0 0x10#8 d).store).fat =
      (fs.view dev₁.store).fat := hchange.fat
  have hne : c ≠ fs.directoryOf d := by
    rintro rfl
    exact fat_ne_zero hc hc.head_mem (hg.free _ (by simp)).2.2
  have hdata' : ∀ k < fs.clusterBytes,
      (fs.view (fs.addDirectoryEntry dev₁ (to83Format x) c 0 0x10#8 d).store).data c k =
        dotEntries c d k := by
    intro k hk
    rw [hchange.otherData c hne]
    exact hdata k hk
  have hentry : (fs.view (fs.addDirectoryEntry dev₁ (to83Format x) c 0 0x10#8 d).store).entry
      ⟨fs.directoryOf d, i⟩ = .create (to83Format x) c 0 0x10#8 := by
    rw [hpub.view]
    exact (entry_setSlot _ _ hpub.length).1
  have howner := @owner_create (to83Format x) c 0 0x10#8 hname.length hname.first hdot (by decide)
  rw [DirectoryEntry.owner, Bool.and_eq_true] at howner
  have hc' := hchange.chain_iff.mpr ((hsame _ ds hd hc).1)
  have hfind : (fs.view (fs.addDirectoryEntry dev₁ (to83Format x) c 0 0x10#8 d).store).find x
      (fs.slots ds) = some ⟨fs.directoryOf d, i⟩ := by
    refine hchange.find_new hv₁ ?_ ?_ fun t ht => ?_
    · rw [hentry]
      exact howner.1
    · rw [hentry, DirectoryEntry.name_create hname.length, isNameEqual, hx.convertName_eq,
        beq_self_eq_true]
    · rw [hsame.live_eq hd hc] at ht
      rw [hsame.entry hd hc (live_subset _ _ t ht)]
      exact h.absent hd hc hnone t ht
  refine ⟨by omega, hwell, hkept,
    hpub.isDirectory hv₁ hname.length hname.first hdot (by omega) h32, ⟨?_, ?_⟩, ?_, ?_, ?_⟩
  · exact hchange.chain_iff.mpr (hg.chain c rfl)
  · exact (dotEntries_empty hdata').2
  · refine ⟨.create (to83Format x) c 0 0x10#8, ?_, ?_, ?_⟩
    · rw [findDirectoryEntry, ← findSlot_directoryOf, findSlot_eq hc', h.take_chain hd hc, hfind,
        Option.map_some, slotEntry_eq hc' hchange.mem, hentry]
    · exact DirectoryEntry.isDirectory_create hname.length c 0
    · exact DirectoryEntry.firstCluster_create hname.length h32
  · have hpos := hgeo.secPerClus_pos
    have htwo : 2 < fs.slotsPerCluster := by
      rw [slotsPerCluster]
      omega
    exact ⟨2, htwo, dotEntries_free hdata' htwo⟩
  · have hone := hg.length_freeClusters.ge
    rwa [View.freeClusters, View.freeClusters, ← hfat] at hone

end Create

/-! ## The whole path -/

section Path

variable {fs : FAT32Driver} {dev : BlockDevice} {comps : List (List Byte)} {path : List Byte}
  {n c d : Nat}

theorem Kept.refl (V : View) : Kept fs none V V where
  dirs := fun _ _ hd hc => ⟨hd, hc⟩
  find := fun _ _ _ _ _ _ _ hs _ => ⟨hs, rfl⟩
  files := fun _ _ hs _ _ hc => ⟨hs, rfl, hc, fun _ _ => rfl⟩

/-- Nothing leads out of an empty directory. -/
theorem EmptyDirectory.not_leads (he : EmptyDirectory fs (fs.view dev.store) d) (h0 : d ≠ 0) :
    ¬Leads fs dev comps d 0 := by
  cases comps with
  | nil => exact h0
  | cons x xs =>
    rintro ⟨e, hfind, -⟩
    rw [he.find_none] at hfind
    cases hfind

theorem EmptyDirectory.noFile (he : EmptyDirectory fs (fs.view dev.store) d) :
    NoFile fs dev comps d := by
  cases comps with
  | nil => trivial
  | cons x xs =>
    intro e hfind
    rw [he.find_none] at hfind
    cases hfind

theorem EmptyDirectory.roomFor (he : EmptyDirectory fs (fs.view dev.store) d)
    (hslot : FreeSlot fs (fs.view dev.store) d)
    (hroom : comps.length ≤ (fs.view dev.store).freeClusters.length) : RoomFor fs dev comps d := by
  cases comps with
  | nil => trivial
  | cons x xs =>
    rw [RoomFor, he.find_none, directoryOf_of_chain he.chain]
    exact ⟨hslot, hroom⟩

/-- `EnsureDirectory` gets to a directory to which the path leads afterwards. -/
theorem ensureLoop_leads (hgeo : Geometry fs) (h : WellFormed fs dev.store)
    (hd : IsDirectory fs (fs.view dev.store) (fs.directoryOf d))
    (hcomps : ∀ x ∈ comps, Component x) (hn : comps.length ≤ n) (hfile : NoFile fs dev comps d)
    (hroom : RoomFor fs dev comps d) :
    ∃ c dev', fs.ensureLoop n dev (joinPath comps) d = (c, dev') ∧
      Kept fs none (fs.view dev.store) (fs.view dev'.store) ∧ Leads fs dev' comps d c ∧
      (c = 0 ↔ Leads fs dev comps d 0) := by
  induction comps generalizing n dev d with
  | nil =>
    refine ⟨d, dev, ?_, .refl _, rfl, Iff.rfl⟩
    cases n <;> rfl
  | cons x xs ih =>
    obtain ⟨m, rfl⟩ : ∃ m, n = m + 1 := ⟨n - 1, by simp at hn; omega⟩
    have hm := Nat.le_of_succ_le_succ hn
    rw [List.forall_mem_cons] at hcomps
    rw [ensureLoop_succ, segment_joinPath hcomps.1, behind_joinPath hcomps.1,
      if_neg hcomps.1.ne_nil]
    cases hfind : fs.findDirectoryEntry dev x d with
    | some e =>
      obtain ⟨hdir, hfile⟩ := hfile e hfind
      rw [RoomFor, hfind] at hroom
      obtain ⟨c, dev', heq, hkept, hleads, hzero⟩ :=
        ih h (isDirectory_of_find h.sound hd hfind hdir) hcomps.2 hm hfile hroom
      refine ⟨c, dev', ?_, hkept,
        ⟨e, findDirectoryEntry_kept h.sound hkept hd hfind, hdir, hleads⟩, ?_⟩
      · dsimp only
        rw [if_pos hdir, heq]
      · rw [hzero, Leads]
        constructor
        · exact fun hrest => ⟨e, hfind, hdir, hrest⟩
        · rintro ⟨e', hfind', -, hrest⟩
          rw [hfind] at hfind'
          obtain rfl := Option.some.inj hfind'
          exact hrest
    | none =>
      rw [RoomFor, hfind] at hroom
      obtain ⟨c₁, dev₁, hcreate, hmade⟩ :=
        createDirectory_made hgeo h hd hcomps.1 hfind hroom.1 (by omega)
      have hd₁ : IsDirectory fs (fs.view dev₁.store) (fs.directoryOf c₁) := by
        rw [directoryOf_of_chain hmade.empty.chain]
        exact hmade.directory
      have hleft : xs.length ≤ (fs.view dev₁.store).freeClusters.length := by
        have := hmade.room
        omega
      obtain ⟨c, dev', heq, hkept, hleads, hzero⟩ := ih hmade.wellFormed hd₁ hcomps.2 hm
        hmade.empty.noFile (hmade.empty.roomFor hmade.slot hleft)
      obtain ⟨e, hfound, hdir, rfl⟩ := hmade.found
      obtain ⟨ds, hc⟩ := h.sound.directory_chain hd
      have hfound' := findDirectoryEntry_kept hmade.wellFormed.sound hkept
        (hmade.kept.dirs _ ds hd hc).1 hfound
      refine ⟨c, dev', ?_, hmade.kept.trans hkept, ⟨e, hfound', hdir, hleads⟩, ?_⟩
      · dsimp only
        rw [hcreate]
        dsimp only
        rw [if_neg hmade.ne_zero, heq]
      · constructor
        · exact fun h0 => absurd (hzero.mp h0) (hmade.empty.not_leads hmade.ne_zero)
        · rintro ⟨e', hfind', -⟩
          rw [hfind] at hfind'
          cases hfind'

/-- The directory that `EnsureDirectory` gives is the one that `GetDirectoryCluster` finds, and
that `EnsureDirectory` gives again without a write, whatever the case of the letters. -/
def Ensured (fs : FAT32Driver) (dev : BlockDevice) (path : List Byte) : Prop :=
  ∃ c dev', fs.ensureDirectory dev path = (c, dev') ∧ c ≠ 0 ∧
    ∀ path', path'.map toUpper = path.map toUpper →
      fs.getDirectoryCluster dev' path' 0 = c ∧ fs.ensureDirectory dev' path' = (c, dev')

theorem joinPath_head? (h : IsPath comps path) : (joinPath comps).head? ≠ some 0x2F#8 := by
  intro hhead
  obtain ⟨x, xs, rfl⟩ := List.exists_cons_of_ne_nil h.nonempty
  have hx := h.components x (List.mem_cons_self ..)
  obtain ⟨rest, hrest⟩ := List.head?_eq_some_iff.mp hhead
  have hseg := segment_joinPath hx xs
  rw [hrest] at hseg
  exact hx.ne_nil hseg.symm

namespace IsPath

variable (h : IsPath comps path)
include h

/-- Both loops start behind the slash before the components. -/
theorem start : comps.length ≤ path.length ∧
    (if path.head? = some 0x2F#8 then path.drop 1 else path) = joinPath comps := by
  have hlen := length_le_joinPath h.components
  rcases h.joined with rfl | rfl
  · exact ⟨hlen, if_neg (joinPath_head? h)⟩
  · refine ⟨?_, rfl⟩
    rw [List.length_cons]
    omega

/-- `GetDirectoryCluster` takes the path to `GetFileEntry`. -/
theorem plain : path ≠ [0x2F#8] ∧ ¬(path = [] ∨ path = [0x2E#8]) := by
  obtain ⟨x, xs, rfl⟩ := List.exists_cons_of_ne_nil h.nonempty
  have hx := h.components x (List.mem_cons_self ..)
  have hne := joinPath_ne_nil hx xs
  have hslash := joinPath_head? h
  have hdot : joinPath (x :: xs) ≠ [0x2E#8] := by
    intro heq
    have hseg := segment_joinPath hx xs
    rw [heq, show segment [0x2E#8] = [0x2E#8] from rfl] at hseg
    exact hx.head?_ne (hseg ▸ rfl)
  rcases h.joined with rfl | rfl
  · refine ⟨?_, ?_⟩
    · intro heq
      rw [heq] at hslash
      exact hslash rfl
    · rintro (heq | heq)
      · exact hne heq
      · exact hdot heq
  · refine ⟨?_, ?_⟩
    · intro heq
      exact hne (List.cons.inj heq).2
    · rintro (heq | heq)
      · cases heq
      · exact absurd (List.cons.inj heq).1 (by decide)

end IsPath

/-- `EnsureDirectory` and `GetDirectoryCluster` agree on a path exactly when it does not lead to
an entry whose first cluster is 0. -/
theorem ensure_directory_iff (hgeo : Geometry fs) (h : WellFormed fs dev.store)
    (hpath : IsPath comps path) (hfile : NoFile fs dev comps fs.rootClus)
    (hroom : RoomFor fs dev comps fs.rootClus) :
    Ensured fs dev path ↔ ¬Leads fs dev comps fs.rootClus 0 := by
  obtain ⟨rs, hroot⟩ := h.sound.directory_chain .root
  have hdir := directoryOf_of_chain hroot
  obtain ⟨hlen, hstart⟩ := hpath.start
  obtain ⟨c, dev', heq, -, hleads, hzero⟩ := ensureLoop_leads hgeo h (by rw [hdir]; exact .root)
    hpath.components hlen hfile hroom
  have hensure : fs.ensureDirectory dev path = (c, dev') := by
    rw [ensureDirectory, hstart, heq]
  have hagain : fs.ensureDirectory dev' path = (c, dev') := by
    rw [ensureDirectory, hstart, hleads.ensureLoop hpath.components hlen]
  rw [← hzero]
  constructor
  · rintro ⟨c', dev'', heq', h0, -⟩
    rw [hensure] at heq'
    obtain rfl := (Prod.mk.inj heq').1
    exact h0
  · intro h0
    refine ⟨c, dev', hensure, h0, fun path' hcase => ?_⟩
    rw [getDirectoryCluster_upper hcase, ensureDirectory_upper hcase]
    refine ⟨?_, hagain⟩
    obtain ⟨s, hslot, hisdir, rfl⟩ := hleads.resolveLoop hpath.components hpath.nonempty hlen
    have hresolve : fs.resolve dev' path 0 = some s := by
      rw [hdir, ← hstart] at hslot
      rw [resolve]
      split_ifs with hslash
      · rwa [if_pos hslash] at hslot
      · rwa [if_neg hslash] at hslot
    rw [getDirectoryCluster, if_neg hpath.plain.1, if_neg hpath.plain.2, getFileEntry, hresolve]
    dsimp only [Option.map_some]
    rw [if_pos hisdir, directoryOf, if_neg h0]

end Path

/-- The path `a.b/c` is made on a volume that was just formatted. -/
theorem ensure_directory_small : Ensured smallVolume ⟨blankDisk, []⟩
    [0x61#8, 0x2E#8, 0x62#8, 0x2F#8, 0x63#8] := by
  have heval : smallVolume.findDirectoryEntry ⟨blankDisk, []⟩ [0x61#8, 0x2E#8, 0x62#8]
        smallVolume.rootClus = none ∧
      ((smallVolume.view blankDisk).entry
        ⟨smallVolume.directoryOf smallVolume.rootClus, 0⟩).isFree =
        true ∧
      2 ≤ (smallVolume.view blankDisk).freeClusters.length := by
    decide +kernel
  obtain ⟨hnone, hfree, hroom⟩ := heval
  have hpath : IsPath [[0x61#8, 0x2E#8, 0x62#8], [0x63#8]]
      [0x61#8, 0x2E#8, 0x62#8, 0x2F#8, 0x63#8] := by
    refine ⟨?_, by simp, Or.inl rfl⟩
    rw [List.forall_mem_cons, List.forall_mem_singleton]
    exact ⟨⟨[0x61#8], [0x62#8], by decide, by decide, by decide, Or.inr (by decide)⟩,
      ⟨[0x63#8], [], by decide, by decide, by decide, Or.inl rfl⟩⟩
  refine (ensure_directory_iff smallVolume_geometry blankDisk_wellFormed hpath ?_ ?_).mpr ?_
  · intro e hfind
    rw [hnone] at hfind
    cases hfind
  · rw [RoomFor, hnone]
    exact ⟨⟨0, by decide, hfree⟩, hroom⟩
  · rintro ⟨e, hfind, -⟩
    rw [hnone] at hfind
    cases hfind

/-- The root directory has sixteen directories whose first cluster is 0. -/
def hollowDisk : Disk := fun lba k =>
  if lba = 2 ∧ k % 32 = 11 then 0x10#8 else fullDisk lba k

theorem hollowDisk_wellFormed : WellFormed smallVolume hollowDisk := by
  have heval : endOfChain ≤ (smallVolume.view hollowDisk).fat 2 % 2 ^ 28 ∧
      ((smallVolume.slots [2]).all fun s => ((smallVolume.view hollowDisk).entry s).first != 0) ∧
      ((smallVolume.slots [2]).all fun s =>
        ((smallVolume.view hollowDisk).entry s).firstCluster == 0 &&
        ((smallVolume.view hollowDisk).entry s).fileSize == 0) ∧
      ((List.range 512).all fun k => hollowDisk 1 k == hollowDisk 0 k) ∧
      (List.range' 2 126).all fun x => (smallVolume.view hollowDisk).fat x == 0 || x == 2 := by
    decide +kernel
  obtain ⟨hroot, hused, hempty, hmirror, hfree⟩ := heval
  exact wellFormed_small hmirror (flat_small hroot hused hempty) hfree

/-- For the directory `A` with first cluster 0, `GetDirectoryCluster` gives the root directory
and `EnsureDirectory` gives 0. -/
theorem ensure_directory_hollow : Geometry smallVolume ∧ WellFormed smallVolume hollowDisk ∧
    IsPath [[0x41#8]] [0x41#8] ∧
    NoFile smallVolume ⟨hollowDisk, []⟩ [[0x41#8]] smallVolume.rootClus ∧
    RoomFor smallVolume ⟨hollowDisk, []⟩ [[0x41#8]] smallVolume.rootClus ∧
    (smallVolume.ensureDirectory ⟨hollowDisk, []⟩ [0x41#8]).1 = 0 ∧
    smallVolume.getDirectoryCluster ⟨hollowDisk, []⟩ [0x41#8] 0 = 2 ∧
    ¬Ensured smallVolume ⟨hollowDisk, []⟩ [0x41#8] := by
  have heval : ((smallVolume.findDirectoryEntry ⟨hollowDisk, []⟩ [0x41#8] smallVolume.rootClus).map
        DirectoryEntry.isDirectory) = some true ∧
      (smallVolume.ensureDirectory ⟨hollowDisk, []⟩ [0x41#8]).1 = 0 ∧
      smallVolume.getDirectoryCluster ⟨hollowDisk, []⟩ [0x41#8] 0 = 2 := by
    decide +kernel
  obtain ⟨hfind, hzero, hroot⟩ := heval
  obtain ⟨e, he, hdir⟩ := Option.map_eq_some_iff.mp hfind
  refine ⟨smallVolume_geometry, hollowDisk_wellFormed, ⟨?_, by simp, Or.inl rfl⟩, ?_, ?_, hzero,
    hroot, ?_⟩
  · rw [List.forall_mem_singleton]
    exact ⟨[0x41#8], [], by decide, by decide, by decide, Or.inl rfl⟩
  · intro e' he'
    rw [he] at he'
    obtain rfl := Option.some.inj he'
    exact ⟨hdir, trivial⟩
  · rw [RoomFor, he]
    trivial
  · rintro ⟨c, dev', heq, h0, -⟩
    rw [heq] at hzero
    exact h0 hzero

end Sylphia
