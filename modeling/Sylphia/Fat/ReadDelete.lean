import Mathlib.Data.List.TakeWhile
import Sylphia.Fat.Calls

/-!
# Reading and deleting by the same path

The system call ReadFile follows a path from directory to directory, while DeleteFile looks
for the whole path as one name in the root directory. They mean the same file only for a path
that is one name.
-/

namespace Sylphia

open Bytes Chain FAT32Driver

/-- The system call `ReadFile`, for the driver `g_fat32_driver`, if there is one. -/
def sysReadFile (driver : Option FAT32Driver) (dev : BlockDevice) (name : List Byte) (len : Nat) :
    Nat × List Byte :=
  match driver with
  | none => (0, [])
  | some fs => fs.readFile dev name len 0

/-- The system call `DeleteFile`; it has no result when the driver does not return. -/
def sysDeleteFile (driver : Option FAT32Driver) (dev : BlockDevice) (path : List Byte) :
    Option (Int × BlockDevice) :=
  match driver with
  | none => some (-1, dev)
  | some fs => (fs.deleteFile dev path 0).map fun (deleted, dev) => (if deleted then 0 else -1, dev)

/-- A sound volume whose directories have clusters. -/
structure TreeVolume (fs : FAT32Driver) (V : View) : Prop where
  sound : SoundVolume fs V
  directories : ∀ s, Listed fs V s → (V.entry s).isDirectory = true → (V.entry s).firstCluster ≠ 0

section

variable {fs : FAT32Driver} {dev dev' : BlockDevice} {d n : Nat} {s : Slot} {path : List Byte}

/-- A path that is its own first component is one name. -/
theorem one_name (h : path.drop ((path.takeWhile (· ≠ 0x2F#8)).take 15).length = []) :
    (path.takeWhile (· ≠ 0x2F#8)).take 15 = path ∧ 0x2F#8 ∉ path ∧ path.length ≤ 15 := by
  have hfirst : (path.takeWhile (· ≠ 0x2F#8)).take 15 <+: path :=
    (List.take_prefix _ _).trans (List.takeWhile_prefix _)
  have hwhole := hfirst.eq_of_length_le (List.drop_eq_nil_iff.mp h)
  refine ⟨hwhole, fun hslash => ?_, ?_⟩
  · rw [← hwhole] at hslash
    have hnot := List.mem_takeWhile_imp (List.mem_of_mem_take hslash)
    simp at hnot
  · rw [← hwhole, List.length_take]
    exact Nat.min_le_left _ _

/-- The entry that `GetFileEntry` gets to is in the directory it starts in, when the rest of
the path is one name, or else in a directory that some entry owns. -/
theorem resolveLoop_cases (hv : TreeVolume fs (fs.view dev.store))
    (hd : IsDirectory fs (fs.view dev.store) d) (hr : fs.resolveLoop dev n path d = some s) :
    ∃ d' ds, ClusterChain fs (fs.view dev.store) d' ds ∧
      s ∈ (fs.view dev.store).live (fs.slots ds) ∧
      (d' = d ∧ 0x2F#8 ∉ path ∧ path.length ≤ 15 ∧ path ≠ [] ∧
          (fs.view dev.store).find path (fs.slots (ds.take 10001)) = some s ∨
        ∃ t, Owns fs (fs.view dev.store) (.slot t) d') := by
  induction n generalizing path d with
  | zero => cases hr
  | succ n ih =>
    obtain ⟨ds, hc⟩ := hv.sound.directory_chain hd
    rw [resolveLoop] at hr
    split at hr
    · cases hr
    · next hpath =>
      dsimp only at hr
      cases hfind : fs.findSlot dev ((path.takeWhile (· ≠ 0x2F#8)).take 15) d with
      | none =>
        rw [hfind] at hr
        cases hr
      | some t =>
        rw [hfind] at hr
        dsimp only at hr
        rw [findSlot_eq hc] at hfind
        obtain ⟨hlist, hlive⟩ := listed_of_find hd hc hfind
        split at hr
        · next hrest =>
          obtain rfl := Option.some.inj hr
          obtain ⟨hwhole, hslash, hlen⟩ := one_name hrest
          rw [hwhole] at hfind
          exact ⟨d, ds, hc, hlive, Or.inl ⟨rfl, hslash, hlen, hpath, hfind⟩⟩
        · split at hr
          · cases hr
          · next hdir =>
            rw [Bool.not_eq_true', Bool.not_eq_false,
              slotEntry_eq hc (live_subset _ _ t hlive)] at hdir
            have h0 := hv.directories t hlist hdir
            rw [slotEntry_eq hc (live_subset _ _ t hlive), directoryOf, if_neg h0] at hr
            have hsub := IsDirectory.sub hd hc hlive hdir
              (isDot_of_isNameEqual (name_of_find hfind)) h0
            obtain ⟨d', ds', hc', hs, ⟨rfl, -⟩ | howned⟩ := ih hsub hr
            · exact ⟨_, ds', hc', hs, Or.inr ⟨t, hlist, rfl, h0⟩⟩
            · exact ⟨d', ds', hc', hs, Or.inr howned⟩

/-- An entry of the root directory is reached by one name only. -/
theorem resolveLoop_root (hv : TreeVolume fs (fs.view dev.store)) {rs : List Nat}
    (hroot : ClusterChain fs (fs.view dev.store) fs.rootClus rs)
    (hs : s ∈ (fs.view dev.store).live (fs.slots rs))
    (hr : fs.resolveLoop dev n path fs.rootClus = some s) :
    0x2F#8 ∉ path ∧ path.length ≤ 15 ∧ path ≠ [] ∧
      ((fs.view dev.store).entry s).name = convertName path := by
  obtain ⟨d', ds, hc, hs', ⟨rfl, hslash, hlen, hne, hfind⟩ | ⟨t, howned⟩⟩ :=
    resolveLoop_cases hv .root hr
  · exact ⟨hslash, hlen, hne, by simpa [isNameEqual] using name_of_find hfind⟩
  · have hmem := (mem_slots.mp (live_subset _ _ s hs)).1
    have hmem' := (mem_slots.mp (live_subset _ _ s hs')).1
    exact absurd hmem' (hv.sound.disjoint .root (.slot t) _ _ rs ds rfl howned (by simp) hroot hc
      _ hmem)

theorem head?_convertName_cons (c : Byte) (cs : List Byte) :
    (convertName (c :: cs)).head? = some (if c = 0x2E#8 then 0x20#8 else toUpper c) := by
  by_cases hc : c = 0x2E#8
  · subst hc
    rw [convertName, if_neg (by simp), if_pos rfl]
    rfl
  · rw [convertName, if_neg hc]
    split
    · rfl
    · simp [hc, padTo]

/-- A name that starts with a slash is not that of a name without one. -/
theorem convertName_slash (hslash : 0x2F#8 ∉ path) (hne : path ≠ []) :
    convertName (0x2F#8 :: path) ≠ convertName path := by
  obtain ⟨c, cs, rfl⟩ := List.exists_cons_of_ne_nil hne
  have hc : c ≠ 0x2F#8 := by
    rintro rfl
    exact hslash (List.mem_cons_self ..)
  intro heq
  have hhead := congrArg List.head? heq
  rw [head?_convertName_cons, head?_convertName_cons, Option.some.injEq] at hhead
  clear heq hslash hne
  revert c
  decide

end

/-! ## The file that was read is the one that is deleted -/

/-- `DeleteFile` returns 0, and the entry in the slot is deleted and its clusters are free. -/
def DeletesSlot (fs : FAT32Driver) (dev : BlockDevice) (path : List Byte) (s : Slot) : Prop :=
  ∃ dev', sysDeleteFile (some fs) dev path = some (0, dev') ∧
    (fs.view dev'.store).entry s = ((fs.view dev.store).entry s).delete ∧
    ∀ cs, ClusterChain fs (fs.view dev.store) ((fs.view dev.store).entry s).firstCluster cs →
      ∀ x ∈ cs, (fs.view dev'.store).fat x = 0

section

variable {fs : FAT32Driver} {dev dev' : BlockDevice} {s : Slot} {path : List Byte}

/-- What `DeleteFile` finds in the root directory is what it deletes. -/
theorem deletesSlot_of_find (hgeo : Geometry fs) (hv : SoundVolume fs (fs.view dev.store))
    {rs : List Nat} (hroot : ClusterChain fs (fs.view dev.store) fs.rootClus rs)
    (hfind : (fs.view dev.store).find path (fs.slots rs) = some s) : DeletesSlot fs dev path s := by
  have hdir : fs.directoryOf 0 = fs.rootClus := rfl
  have hsearch : (fs.searchLoop dev path loopBound (fs.directoryOf 0)).join = some s := by
    rw [hdir, searchLoop_eq hroot (hv.ended _ rs .root hroot) (ClusterChain.length_lt hroot)]
    exact hfind
  obtain ⟨ds, cs, dev', heq, -, hremoved⟩ := deleteFile_removed hgeo hv (hdir ▸ .root) hsearch
  refine ⟨dev', by rw [sysDeleteFile, heq]; rfl, ?_, fun es hes x hx => ?_⟩
  · rw [hremoved.view]
    exact (entry_setSlot _ s (DirectoryEntry.length_delete (length_entry _ s))).1
  · rw [hremoved.view]
    rcases hremoved.file with ⟨h0, -⟩ | hchain
    · exact absurd (h0 ▸ hes.valid_head.1) (by decide)
    · exact if_pos (hes.unique hchain ▸ hx)

/-- What `DeleteFile` deletes is what it finds in the root directory. -/
theorem find_of_deletesSlot (hgeo : Geometry fs) (hv : SoundVolume fs (fs.view dev.store))
    {rs : List Nat} (hroot : ClusterChain fs (fs.view dev.store) fs.rootClus rs)
    (hlive : ((fs.view dev.store).entry s).isLive = true) (h : DeletesSlot fs dev path s) :
    (fs.view dev.store).find path (fs.slots rs) = some s := by
  have hdir : fs.directoryOf 0 = fs.rootClus := rfl
  obtain ⟨dev', hzero, hentry, -⟩ := h
  cases hfind : (fs.view dev.store).find path (fs.slots rs) with
  | none =>
    rcases deleteFile_cases hgeo hv hdir .root hroot with ⟨-, heq⟩ | ⟨t, _, _, hsome, -⟩
    · rw [sysDeleteFile, heq] at hzero
      cases hzero
    · rw [hfind] at hsome
      cases hsome
  | some t =>
    have hsearch : (fs.searchLoop dev path loopBound (fs.directoryOf 0)).join = some t := by
      rw [hdir, searchLoop_eq hroot (hv.ended _ rs .root hroot) (ClusterChain.length_lt hroot)]
      exact hfind
    obtain ⟨ds, cs, dev'', heq, -, hremoved⟩ := deleteFile_removed hgeo hv (hdir ▸ .root) hsearch
    rw [sysDeleteFile, heq] at hzero
    obtain rfl : dev'' = dev' := by
      injection hzero with hzero
      injection hzero
    by_cases hts : s = t
    · rw [hts]
    · have hsame : (fs.view dev''.store).entry s = (fs.view dev.store).entry s := by
        rw [hremoved.view]
        exact (entry_setSlot _ t (DirectoryEntry.length_delete (length_entry _ t))).2 s hts
      rw [hsame] at hentry
      rw [hentry] at hlive
      exact absurd hlive (by simp [DirectoryEntry.isLive, DirectoryEntry.first,
        DirectoryEntry.delete])

end

section

variable {fs : FAT32Driver} {dev : BlockDevice} {s : Slot} {path : List Byte}

/-- `GetFileEntry` starts in the root directory, behind the first slash of a path. -/
theorem resolve_cases (h : fs.resolve dev path 0 = some s) :
    ∃ n rest, fs.resolveLoop dev n rest fs.rootClus = some s ∧
      (path = rest ∨ path = 0x2F#8 :: rest) := by
  rw [resolve] at h
  split at h
  · next hslash =>
    obtain ⟨rest, rfl⟩ := List.head?_eq_some_iff.mp hslash
    exact ⟨_, rest, h, Or.inr rfl⟩
  · exact ⟨_, path, h, Or.inl rfl⟩

/-- One name is looked for in the root directory. -/
theorem find_of_resolve (hpath : OneSegment path) {rs : List Nat}
    (hroot : ClusterChain fs (fs.view dev.store) fs.rootClus rs)
    (h : fs.resolve dev path 0 = some s) :
    (fs.view dev.store).find path (fs.slots rs) = some s := by
  rw [hpath.resolve, ← findSlot_directoryOf, show fs.directoryOf 0 = fs.rootClus from rfl,
    findSlot_eq hroot] at h
  rw [slots_take fs rs 10001]
  exact find_append_of_some h

end

/-- A file that was read by a path is the one that is deleted by the same path, exactly when
the path is one name without a slash, of at most 15 characters. -/
theorem delete_removes_read_iff (fs : FAT32Driver) (dev : BlockDevice) (hgeo : Geometry fs)
    (hv : TreeVolume fs (fs.view dev.store)) (path : List Byte) (len : Nat)
    (hread : 0 < (sysReadFile (some fs) dev path len).1) :
    ∃ s, fs.resolve dev path 0 = some s ∧
      (DeletesSlot fs dev path s ↔ 0x2F#8 ∉ path ∧ path.length ≤ 15) := by
  obtain ⟨rs, hroot⟩ := hv.sound.directory_chain .root
  cases hresolve : fs.resolve dev path 0 with
  | none =>
    rw [sysReadFile, readFile, getFileEntry, hresolve] at hread
    exact absurd hread (Nat.lt_irrefl 0)
  | some s =>
    refine ⟨s, rfl, ?_, ?_⟩
    · intro hdelete
      obtain ⟨n, rest, hloop, hpath⟩ := resolve_cases hresolve
      obtain ⟨_, _, _, hlisted, _⟩ := resolveLoop_cases hv .root hloop
      have hfind := find_of_deletesSlot hgeo hv.sound hroot (isLive_of_mem_live hlisted) hdelete
      obtain ⟨hslash, hlen, hne, hname⟩ :=
        resolveLoop_root hv hroot (mem_of_find hfind) hloop
      rcases hpath with rfl | rfl
      · exact ⟨hslash, hlen⟩
      · have hname' : ((fs.view dev.store).entry s).name = convertName (0x2F#8 :: rest) := by
          simpa [isNameEqual] using name_of_find hfind
        exact absurd (hname'.symm.trans hname) (convertName_slash hslash hne)
    · rintro ⟨hslash, hlen⟩
      have hne : path ≠ [] := by
        rintro rfl
        cases hresolve
      exact deletesSlot_of_find hgeo hv.sound hroot
        (find_of_resolve ⟨hne, hslash, hlen⟩ hroot hresolve)

/-- The volume with the one file `A` has no directory but the root. -/
theorem oneFileDisk_tree : TreeVolume smallVolume (smallVolume.view oneFileDisk.store) := by
  refine ⟨oneFileDisk_sound, fun s hs hdir => ?_⟩
  have heval : endOfChain ≤ (smallVolume.view oneFileDisk.store).fat 2 % 2 ^ 28 ∧
      ((smallVolume.view oneFileDisk.store).live (smallVolume.slots [2])).all fun t =>
        !((smallVolume.view oneFileDisk.store).entry t).isDirectory := by
    decide +kernel
  have hfiles : ∀ ds t, ClusterChain smallVolume (smallVolume.view oneFileDisk.store)
      smallVolume.rootClus ds → t ∈ (smallVolume.view oneFileDisk.store).live
        (smallVolume.slots ds) →
      ((smallVolume.view oneFileDisk.store).entry t).isDirectory = false := by
    intro ds t hc ht
    rw [hc.unique (root_chain heval.1)] at ht
    simpa using List.all_eq_true.mp heval.2 t ht
  have honly : ∀ d, IsDirectory smallVolume (smallVolume.view oneFileDisk.store) d →
      d = smallVolume.rootClus := by
    intro d hd
    induction hd with
    | root => rfl
    | sub _ hc ht hdir _ _ ih =>
      subst ih
      rw [hfiles _ _ hc ht] at hdir
      cases hdir
  obtain ⟨d, ds, hd, hc, hlive, -⟩ := hs
  rw [hfiles ds s (honly d hd ▸ hc) hlive] at hdir
  cases hdir

/-- The file `A` is read and deleted as `a`. -/
theorem delete_removes_read_small : DeletesSlot smallVolume oneFileDisk [0x61#8] ⟨2, 0⟩ := by
  have heval : 0 < (sysReadFile (some smallVolume) oneFileDisk [0x61#8] 512).1 ∧
      smallVolume.resolve oneFileDisk [0x61#8] 0 = some ⟨2, 0⟩ := by
    decide +kernel
  obtain ⟨s, hs, hiff⟩ := delete_removes_read_iff smallVolume oneFileDisk smallVolume_geometry
    oneFileDisk_tree [0x61#8] 512 heval.1
  obtain rfl := Option.some.inj (heval.2.symm.trans hs)
  exact hiff.mpr (by decide)

/-- The file `A` is read as `/a`, and `DeleteFile` does not find it. -/
theorem read_not_deleted : Geometry smallVolume ∧
    TreeVolume smallVolume (smallVolume.view oneFileDisk.store) ∧
    sysReadFile (some smallVolume) oneFileDisk [0x2F#8, 0x61#8] 512 =
      (3, [0x2A#8, 0x2A#8, 0x2A#8]) ∧
    smallVolume.resolve oneFileDisk [0x2F#8, 0x61#8] 0 = some ⟨2, 0⟩ ∧
    (sysDeleteFile (some smallVolume) oneFileDisk [0x2F#8, 0x61#8]).map Prod.fst = some (-1) ∧
    ¬DeletesSlot smallVolume oneFileDisk [0x2F#8, 0x61#8] ⟨2, 0⟩ := by
  have heval : sysReadFile (some smallVolume) oneFileDisk [0x2F#8, 0x61#8] 512 =
        (3, [0x2A#8, 0x2A#8, 0x2A#8]) ∧
      smallVolume.resolve oneFileDisk [0x2F#8, 0x61#8] 0 = some ⟨2, 0⟩ ∧
      (sysDeleteFile (some smallVolume) oneFileDisk [0x2F#8, 0x61#8]).map Prod.fst = some (-1) := by
    decide +kernel
  refine ⟨smallVolume_geometry, oneFileDisk_tree, heval.1, heval.2.1, heval.2.2, ?_⟩
  rintro ⟨dev', hzero, -⟩
  have hfails := heval.2.2
  rw [hzero] at hfails
  cases hfails

end Sylphia
